import CaribeOS.Hfs.Mount
import CaribeOS.Hfs.ScriptLookup
import CaribeOS.Hfs.Soundness
import Mathlib.Data.List.Find

/-!
# The booter on an image in order

The scripts and the booter read the same bytes, each with its own code. For a disk that holds an
image in order (`Holds`, `Sound`), this module says what the booter makes of it, in terms of the
contents that the scripts see: `hfsplus_mount` finds the same volume (`Sound.view`), a scan of the
catalog ends at the first record that fits (`Contents.child`), a path leads to the record that
`Contents.walk` finds, and `hfsplus_read_file` delivers the data fork of that record
(`View.readFile`).
-/

namespace CaribeOS.HfsScript

open FileScript Extents ByteMemory

/-! ## Forks -/

theorem forkBlock_eq (ext : List Extent) (n : ℕ) : forkBlock ext n
    = (blocks (ext.map fun e ↦ (e.start.toNat, e.count.toNat)))[n]? := by
  rw [← blockAt_eq]
  induction ext generalizing n with
  | nil => rfl
  | cons e ext ih => rw [forkBlock, ih, List.map_cons, blockAt]

theorem map_ext_forkData (b : ℕ → UInt8) (o : ℕ) :
    (List.ofFn (forkData b o).ext).map (fun e ↦ (e.start.toNat, e.count.toNat))
      = extentsAt b (o + 16) := by
  rw [List.map_ofFn, List.ofFn_eq_map, extentsAt, ← List.map_coe_finRange_eq_range, List.map_map]
  refine List.map_congr_left fun i _ ↦ ?_
  rw [Function.comp_apply, Function.comp_apply, forkData, extentAt]
  rw [show o + 16 + i.val * 8 = o + (16 + 8 * i.val) by omega,
    show o + 16 + 4 + i.val * 8 = o + (20 + 8 * i.val) by omega]

theorem forkBlock_forkData (b : ℕ → UInt8) (o n : ℕ) :
    forkBlock (List.ofFn (forkData b o).ext) n = (blocks (extentsAt b (o + 16)))[n]? := by
  rw [forkBlock_eq, map_ext_forkData]

theorem forkData_congr {b b' : ℕ → UInt8} {o : ℕ} (h : ∀ k, o ≤ k → k < o + 80 → b k = b' k) :
    forkData b o = forkData b' o := by
  have hext : (forkData b o).ext = (forkData b' o).ext := by
    funext i
    rw [forkData, forkData]
    dsimp only
    rw [be32_congr fun k hle hlt ↦ h k (by omega) (by omega),
      be32_congr fun k hle hlt ↦ h k (by omega) (by omega)]
  exact congrArg₂ ForkMeta.mk (be64_congr fun k hle hlt ↦ h k hle (by omega)) hext

theorem recordFork_eq (b : ℕ → UInt8) (o : ℕ) :
    recordFork b o = forkData b (recordData b o + 88) := by
  have hext : (recordFork b o).ext = (forkData b (recordData b o + 88)).ext := by
    funext i
    rw [recordFork, forkData]
    dsimp only
    rw [show recordData b o + 88 + (16 + 8 * i.val) = recordData b o + (104 + 8 * i.val) by omega,
      show recordData b o + 88 + (20 + 8 * i.val) = recordData b o + (108 + 8 * i.val) by omega]
  exact congrArg (ForkMeta.mk _) hext

/-! ## Disks with an image -/

/-- The disk holds the image: its sectors can be read and have the bytes of the image. -/
structure Holds (disk : Disk) (img : Buf) : Prop where
  bytes : ∀ x < img.size, disk.bytes x = img.byte x
  reads : ∀ lba count, (lba.toNat + count.toNat) * 512 ≤ img.size → disk.ok lba count = true

/-- A volume of the kind that the booter is made for, in an image of `size` bytes: below 2 TiB,
blocks of 4 or 8 KiB, a catalog below 4 GiB, and nodes that are not larger than a block. -/
structure BooterSized (hfs : HFSPlusImage) (size : ℕ) : Prop where
  blockSize : hfs.blockSize = 4096 ∨ hfs.blockSize = 8192
  size_lt : size < 2199023255552
  nodeSize : ∃ e, hfs.nodeSize = 2 ^ e
  nodeSize_le : hfs.nodeSize ≤ hfs.blockSize
  catalog_lt : hfs.catalog.size < 4294967296
  catalog_covers : hfs.totalNodes * hfs.nodeSize ≤ hfs.catalog.size

/-- The fields of a volume are the same for the booter and the scripts. -/
structure SameVolume (vol : HfsVolume) (hfs : HFSPlusImage) : Prop where
  blockSize : vol.blockSize = 4096 ∨ vol.blockSize = 8192
  bs : vol.bs.toNat = hfs.blockSize
  nodeSize : vol.catalogNodeSize.toNat = hfs.nodeSize
  first : (catalogRange vol).1.toNat = hfs.firstLeaf
  last : (catalogRange vol).2.toNat = hfs.lastLeaf
  catalog_size : vol.catalog.size.toNat = hfs.catalog.size
  catalog : ∀ n, forkBlock (List.ofFn vol.catalog.ext) n = (catalogBlocks hfs)[n]?

variable {hfs : HFSPlusImage} {vol : HfsVolume} {img : Buf} {n : ℕ}

theorem SameVolume.sane (h : SameVolume vol hfs) :
    vol.SaneBlockSize := (vol.bs_of_blockSize h.blockSize).1

theorem SameVolume.sectors (h : SameVolume vol hfs) :
    hfs.blockSize = 512 * vol.sectorsPerBlock.toNat := by
  rw [← h.bs]
  exact h.sane.toNat_bs.1

section Blocks

variable {disk : Disk} {img : Buf} {hfs : HFSPlusImage} {vol : HfsVolume} {p : ℕ}
  (s : Sound img hfs) (hp : p < hfs.totalBlocks)
include s hp

theorem Sound.block_le : p * hfs.blockSize + hfs.blockSize ≤ img.size := by
  rw [← Nat.succ_mul]
  exact (Nat.mul_le_mul_right _ hp).trans s.size

variable (hb : BooterSized hfs img.size)
include hb

theorem Sound.sector_lt (hv : SameVolume vol hfs) : p * vol.sectorsPerBlock.toNat < 4294967296 := by
  have hle := s.block_le hp
  have hlt := hb.size_lt
  rw [hv.sectors, Nat.mul_left_comm] at hle
  omega

theorem Sound.block_ok (hv : SameVolume vol hfs) (hdisk : Holds disk img) :
    disk.ok (blockLba vol (.ofNat p)) vol.sectorsPerBlock = true := by
  have hfit := s.sector_lt hp hb hv
  have hle := s.block_le hp
  rw [hv.sectors, Nat.mul_left_comm] at hle
  rw [blockLba_eq hfit]
  refine hdisk.reads _ _ ?_
  rw [UInt64.toNat_ofNat', Nat.mod_eq_of_lt (by omega)]
  omega

end Blocks

/-! ## Mounting -/

theorem volume_congr_header {h h' t : ℕ → UInt8} (hh : ∀ k < 512, h k = h' k) :
    volume h t = volume h' t := by
  rw [volume, volume, be32_congr (o := 40) fun k hle hlt ↦ hh k (by omega),
    be32_congr (o := 44) fun k hle hlt ↦ hh k (by omega),
    be32_congr (o := 48) fun k hle hlt ↦ hh k (by omega),
    forkAt_congr (o := 112) fun k hle hlt ↦ hh k (by omega),
    forkAt_congr (o := 272) fun k hle hlt ↦ hh k (by omega)]

section Mounting

variable {disk : Disk} {img : Buf} {hfs : HFSPlusImage} (s : Sound img hfs)
include s

/-- The catalog has a first block, and it holds the beginning of the tree. -/
theorem Sound.first_block : ∃ p, (catalogBlocks hfs)[0]? = some p ∧ p < hfs.totalBlocks ∧
    ∀ k < hfs.blockSize, bytesOf hfs.blockSize (catalogBlocks hfs) img k
      = img.byte (p * hfs.blockSize + k) := by
  obtain ⟨-, -, hcov, -⟩ := of_mount_eq_ok s.header s.mounted
  rw [← s.catalogBlocks_header] at hcov
  cases hblocks : catalogBlocks hfs with
  | nil =>
    rw [hblocks, List.length_nil, Nat.zero_mul] at hcov
    exact absurd hcov (by decide)
  | cons p rest =>
    refine ⟨p, rfl, s.geometry.catalog_lt p (by rw [hblocks]; exact List.mem_cons_self),
      fun k hk ↦ bytesOf_eq (byteAt_eq_some_iff.mpr ⟨p, ?_, ?_⟩)⟩
    · rw [Nat.div_eq_of_lt hk]
      rfl
    · rw [Nat.mod_eq_of_lt hk]

omit s in
/-- The range of leaves that the booter scans, for a volume with the tree fields `t`. -/
theorem catalogRange_volume {h t : ℕ → UInt8} (hfirst : vol.firstLeafNode = CaribeOS.be32 t 24)
    (hlast : vol.lastLeafNode = CaribeOS.be32 t 28)
    (htotal : vol.totalCatalogNodes = CaribeOS.be32 t 36)
    (hlt : (volume h t).lastLeaf < (volume h t).totalNodes) :
    (catalogRange vol).1.toNat = (volume h t).firstLeaf ∧
      (catalogRange vol).2.toNat = (volume h t).lastLeaf := by
  have hle := volume_leaves h t
  have hone : (1 : UInt32).toNat = 1 := rfl
  have hzero : (0 : UInt32).toNat = 0 := rfl
  rw [volume] at hlt hle ⊢
  dsimp only at hlt hle ⊢
  have hsome : CaribeOS.be32 t 36 ≠ 0 := by
    rw [ne_eq, ← UInt32.toNat_inj]
    omega
  rw [catalogRange, hfirst, hlast, htotal, if_neg hsome]
  simp only [decide_eq_true_eq] at hlt hle ⊢
  -- without leaves of its own, the range is that of all nodes but the first
  by_cases hno : (CaribeOS.be32 t 24).toNat = 0 ∨ (CaribeOS.be32 t 28).toNat = 0 ∨
      (CaribeOS.be32 t 28).toNat < (CaribeOS.be32 t 24).toNat
  · rw [if_pos hno] at hlt hle
    have hbad : CaribeOS.be32 t 24 = 0 ∨ CaribeOS.be32 t 28 = 0 ∨
        CaribeOS.be32 t 36 ≤ CaribeOS.be32 t 24 ∨ CaribeOS.be32 t 36 ≤ CaribeOS.be32 t 28 ∨
        CaribeOS.be32 t 28 < CaribeOS.be32 t 24 := by
      rcases hno with hno | hno | hno
      · exact Or.inl (UInt32.toNat_inj.mp hno)
      · exact Or.inr (Or.inl (UInt32.toNat_inj.mp hno))
      · exact Or.inr (Or.inr (Or.inr (Or.inr (UInt32.lt_iff_toNat_lt.mpr hno))))
    have hmany : (1 : UInt32) < CaribeOS.be32 t 36 := UInt32.lt_iff_toNat_lt.mpr (by omega)
    rw [if_pos hbad, if_pos hmany, if_pos hno, if_pos hno]
    dsimp only
    rw [UInt32.toNat_sub_of_le _ _ (UInt32.le_iff_toNat_le.mpr (by omega))]
    omega
  · rw [if_neg hno] at hlt hle
    have hgood : ¬(CaribeOS.be32 t 24 = 0 ∨ CaribeOS.be32 t 28 = 0 ∨
        CaribeOS.be32 t 36 ≤ CaribeOS.be32 t 24 ∨ CaribeOS.be32 t 36 ≤ CaribeOS.be32 t 28 ∨
        CaribeOS.be32 t 28 < CaribeOS.be32 t 24) := by
      simp only [← UInt32.toNat_inj, UInt32.le_iff_toNat_le, UInt32.lt_iff_toNat_lt, hzero]
      omega
    rw [if_neg hgood, if_neg hno, if_neg hno]
    exact ⟨rfl, rfl⟩

variable (hb : BooterSized hfs img.size) (hnode : 512 ≤ hfs.nodeSize) (hdisk : Holds disk img)
include hb hnode hdisk

/-- **The booter mounts the volume** that the scripts have mounted. -/
theorem Sound.booterMount : ∃ vol, SameVolume vol hfs ∧
    ∀ secbuf m, (hfsplusMount disk secbuf m).1 = some vol := by
  obtain ⟨p, hp, hplt, htree⟩ := s.first_block
  have hend := s.block_le hplt
  have hmin : 4096 ≤ hfs.blockSize := by
    have := hb.blockSize
    omega
  -- what the booter reads are bytes of the image
  have hheader : ∀ k < 512, volumeHeader disk k = HfsScript.header img k := by
    intro k hk
    exact hdisk.bytes _ (by omega)
  have hnode0 : ∀ k < 40, bytesOf hfs.blockSize (catalogBlocks hfs) img k
      = disk.bytes (p * hfs.blockSize + k) := by
    intro k hk
    rw [htree k (by omega), hdisk.bytes _ (by omega)]
  have hvolume : hfs = volume (volumeHeader disk) fun k ↦ disk.bytes (p * hfs.blockSize + k) := by
    rw [volume_congr_header hheader, ← volume_congr fun k _ hlt ↦ hnode0 k hlt]
    exact s.eq_volume
  generalize hT : (fun k ↦ disk.bytes (p * hfs.blockSize + k)) = T at hvolume
  have hsize : hfs.blockSize = (CaribeOS.be32 (volumeHeader disk) 40).toNat :=
    congrArg HFSPlusImage.blockSize hvolume
  have hblock : CaribeOS.be32 (volumeHeader disk) 40 = 4096 ∨
      CaribeOS.be32 (volumeHeader disk) 40 = 8192 := by
    rw [← UInt32.toNat_inj, ← UInt32.toNat_inj, ← hsize]
    exact hb.blockSize
  have hcatalog : hfs.catalog = forkAt (volumeHeader disk) 272 :=
    congrArg HFSPlusImage.catalog hvolume
  have hcatsize : (forkData (volumeHeader disk) 272).size.toNat = hfs.catalog.size := by
    rw [hcatalog]
    rfl
  have hcatblocks : ∀ n, forkBlock (List.ofFn (forkData (volumeHeader disk) 272).ext) n
      = (catalogBlocks hfs)[n]? := by
    intro n
    rw [forkBlock_forkData, catalogBlocks, hcatalog, blocks_forkAt]
  have hleaves := s.leaves
  rw [hvolume] at hleaves
  refine ⟨volumeOf (volumeHeader disk) T, ⟨hblock, ?_, ?_, ?_, ?_, hcatsize, hcatblocks⟩,
    fun secbuf m ↦ ?_⟩
  · rw [((volumeOf (volumeHeader disk) T).bs_of_blockSize hblock).2.1, hsize]
    rfl
  · have hnodes : hfs.nodeSize = if (CaribeOS.be16 T 32).toNat = 0 then 4096
        else (CaribeOS.be16 T 32).toNat := congrArg HFSPlusImage.nodeSize hvolume
    have hle := hb.nodeSize_le
    have hbig := hb.blockSize
    rw [volumeOf]
    by_cases hzero : CaribeOS.be16 T 32 = 0
    · rw [if_neg fun h ↦ h.1 hzero, hnodes, hzero]
      rfl
    · have hne : ¬(CaribeOS.be16 T 32).toNat = 0 := fun h ↦ hzero (UInt16.toNat_inj.mp h)
      rw [if_neg hne] at hnodes
      have hfits : (CaribeOS.be16 T 32).toUInt32 ≤ hfsNodeBufSize := by
        rw [UInt32.le_iff_toNat_le, UInt16.toNat_toUInt32]
        change _ ≤ 8192
        omega
      rw [if_pos ⟨hzero, hfits⟩, hnodes]
  · exact (catalogRange_volume rfl rfl rfl hleaves).1.trans
      (congrArg HFSPlusImage.firstLeaf hvolume).symm
  · exact (catalogRange_volume rfl rfl rfl hleaves).2.trans
      (congrArg HFSPlusImage.lastLeaf hvolume).symm
  · have hsig : CaribeOS.be16 (volumeHeader disk) 0 = 0x482b ∨
        CaribeOS.be16 (volumeHeader disk) 0 = 0x4858 := by
      have hgood := (of_mount_eq_ok s.header s.mounted).1
      rw [SignatureOk, ← be16_congr fun k _ hlt ↦ hheader k (by omega)] at hgood
      rwa [← UInt16.toNat_inj, ← UInt16.toNat_inj]
    have hlarge : 40 ≤ (forkData (volumeHeader disk) 272).size.toNat := by
      have hcovers := hb.catalog_covers
      have hsome := s.leaves
      have hmul := Nat.mul_le_mul (by omega : 1 ≤ hfs.totalNodes) hnode
      omega
    have hbytes := hb.size_lt
    rw [hfsplusMount_eq (hdisk.reads 2 1 s.header) hsig hblock hlarge ((hcatblocks 0).trans hp)
      (by rw [← hsize]; omega) ?_, ← hsize, hT]
    refine hdisk.reads _ _ ?_
    rw [← hsize, UInt64.toNat_ofNat', UInt32.toNat_ofNat']
    rcases hb.blockSize with h | h
    · rw [h] at hend ⊢
      omega
    · rw [h] at hend ⊢
      omega

end Mounting

/-! ## Lookups in the contents -/

section Lookup

variable (hfs : HFSPlusImage) (c : Contents)

/-- The record at `pos` is taken for what is asked for. -/
def Contents.Takes (q : ScanQuery) (pos : ℕ × ℕ) : Prop :=
  recordParent (c.node pos.1) (c.offset hfs pos) = q.parent ∧
    squeeze (recordName (c.node pos.1) (c.offset hfs pos)) = q.target.takeWhile (· ≠ 0) ∧
      IsWanted (c.node pos.1) (c.offset hfs pos) q
  deriving Decidable

/-- The records that a scan comes to, in its order. -/
def Contents.visits : List (ℕ × ℕ) :=
  (List.range' hfs.firstLeaf (hfs.lastLeaf - hfs.firstLeaf + 1)).flatMap fun n ↦
    (visitedRecords (c.node n)).map fun i ↦ (n, i)

/-- The record at which a scan ends. -/
def Contents.child (q : ScanQuery) : Option (ℕ × ℕ) :=
  (c.visits hfs).find? fun pos ↦ c.Takes hfs q pos

/-- The number of the folder of a folder record. -/
def Contents.folderNumber (pos : ℕ × ℕ) : UInt32 :=
  CaribeOS.be32 (c.node pos.1) (c.dataOffset hfs pos + 8)

/-- The file record that the components of a path lead to, from the folder `parent` on. They are cut
to 127 characters, as the booter does. -/
def Contents.walk : UInt32 → List (List UInt8) → Option (ℕ × ℕ)
  | _, [] => none
  | parent, [name] => c.child hfs (fileQuery parent (name.take 127))
  | parent, name :: names =>
    (c.child hfs (folderQuery parent (name.take 127))).bind fun dir ↦
      walk (c.folderNumber hfs dir) names

theorem Contents.walk_cons (parent : UInt32) (name : List UInt8) {names : List (List UInt8)}
    (hnames : names ≠ []) : c.walk hfs parent (name :: names)
      = (c.child hfs (folderQuery parent (name.take 127))).bind fun dir ↦
          c.walk hfs (c.folderNumber hfs dir) names := by
  cases names with
  | nil => exact absurd rfl hnames
  | cons next names => rfl

/-- The data fork of a file record, as the booter reads it. -/
def Contents.dataFork (pos : ℕ × ℕ) : ForkMeta :=
  forkData (c.node pos.1) (c.dataOffset hfs pos + 88)

theorem Contents.forkBlock_dataFork (pos : ℕ × ℕ) (n : ℕ) :
    forkBlock (List.ofFn (c.dataFork hfs pos).ext) n = (c.blocksOf hfs (.data pos))[n]? :=
  forkBlock_forkData _ _ _

/-- A file that the booter can read to a buffer of `cap` bytes: not empty, not larger than the
buffer, and covered by the extents of its record. -/
structure Contents.Readable (cap : ℕ) (pos : ℕ × ℕ) : Prop where
  nonempty : 0 < (c.dataFork hfs pos).size.toNat
  le : (c.dataFork hfs pos).size.toNat ≤ cap
  covered : (c.dataFork hfs pos).size.toNat ≤ (c.blocksOf hfs (.data pos)).length * hfs.blockSize

end Lookup

theorem Sound.mem_visits_iff (s : Sound img hfs) {c : Contents} {pos : ℕ × ℕ} :
    pos ∈ c.visits hfs ↔ c.Visited hfs pos := by
  have hfirst := s.firstLeaf_le
  rw [Contents.visits, List.mem_flatMap]
  constructor
  · rintro ⟨n, hn, hpos⟩
    obtain ⟨i, hi, rfl⟩ := List.mem_map.mp hpos
    rw [List.mem_range'_1] at hn
    rw [visitedRecords] at hi
    split_ifs at hi with hkind
    · obtain ⟨r, hr, rfl⟩ := List.mem_map.mp hi
      rw [List.mem_range] at hr
      exact ⟨hn.1, by dsimp only; omega, hkind, by dsimp only; omega, by dsimp only; omega⟩
    · exact absurd hi List.not_mem_nil
  · rintro ⟨hle, hlast, hkind, hpos, hlt⟩
    refine ⟨pos.1, List.mem_range'_1.mpr ⟨hle, by omega⟩, List.mem_map.mpr ⟨pos.2, ?_, rfl⟩⟩
    rw [visitedRecords, if_pos hkind, List.mem_map]
    refine ⟨numRecords (c.node pos.1) - 1 - pos.2, List.mem_range.mpr (by omega), by omega⟩

theorem Sound.child_spec (s : Sound img hfs) {c : Contents} {q : ScanQuery} {pos : ℕ × ℕ}
    (h : c.child hfs q = some pos) : c.Visited hfs pos ∧ c.Takes hfs q pos := by
  refine ⟨s.mem_visits_iff.mp (List.mem_of_find?_eq_some h), ?_⟩
  have htakes := List.find?_some h
  exact of_decide_eq_true htakes

theorem Contents.Takes.folder {hfs : HFSPlusImage} {c : Contents} {pos : ℕ × ℕ} {parent : UInt32}
    {name : List UInt8} (h : c.Takes hfs (folderQuery parent name) pos) :
    recordType (c.node pos.1) (c.offset hfs pos) = 1 :=
  h.2.2.elim And.left fun hfile ↦ absurd hfile.2 Bool.false_ne_true

/-! ## What the booter reads of the image -/

/-- The booter has mounted a disk with an image in order, of the kind it is made for. -/
structure View (disk : Disk) (vol : HfsVolume) (img : Buf) (hfs : HFSPlusImage) : Prop where
  sound : Sound img hfs
  sized : BooterSized hfs img.size
  large : 512 ≤ hfs.nodeSize
  holds : Holds disk img
  same : SameVolume vol hfs

theorem Sound.view {disk : Disk} (s : Sound img hfs) (hb : BooterSized hfs img.size)
    (hnode : 512 ≤ hfs.nodeSize) (hdisk : Holds disk img) :
    ∃ vol, View disk vol img hfs ∧ ∀ secbuf m, (hfsplusMount disk secbuf m).1 = some vol := by
  obtain ⟨vol, hsame, hmount⟩ := s.booterMount hb hnode hdisk
  exact ⟨vol, ⟨s, hb, hnode, hdisk, hsame⟩, hmount⟩

namespace View

variable {disk : Disk} {vol : HfsVolume} {img : Buf} {hfs : HFSPlusImage}
  (v : View disk vol img hfs)
include v

theorem blockSize_pos : 0 < hfs.blockSize := v.sound.blockSize_pos

/-- The bytes of a fork, as the booter reads them, are those that the scripts read. -/
theorem forkByte_eq {ext : List Extent} {bl : List ℕ} (hext : ∀ n, forkBlock ext n = bl[n]?)
    (hlt : ∀ b ∈ bl, b < hfs.totalBlocks) (x : ℕ) :
    forkByte disk vol.bs.toNat ext x = (byteAt hfs.blockSize bl x).map img.byte := by
  rw [forkByte, hext, v.same.bs, byteAt, Option.map_map]
  refine Option.map_congr fun p hp ↦ ?_
  have hle := v.sound.block_le (hlt p (List.mem_of_getElem? hp))
  have hmod := Nat.mod_lt x v.blockSize_pos
  exact v.holds.bytes _ (by omega)

theorem blockOk_iff {ext : List Extent} {bl : List ℕ} (hext : ∀ n, forkBlock ext n = bl[n]?)
    (hlt : ∀ b ∈ bl, b < hfs.totalBlocks) (n : ℕ) : BlockOk disk vol ext n ↔ n < bl.length := by
  rw [BlockOk, hext]
  constructor
  · rintro ⟨p, hp, -⟩
    exact (List.getElem?_eq_some_iff.mp hp).1
  · intro hn
    refine ⟨_, List.getElem?_eq_getElem hn, ?_⟩
    exact v.sound.block_ok (hlt _ (List.getElem_mem hn)) v.sized v.same v.holds

/-! ### Nodes -/

theorem toNat_nodeSize : vol.nodeSize.toNat = hfs.nodeSize := by
  have hlarge := v.large
  have hne : vol.catalogNodeSize ≠ 0 := by
    intro hzero
    have hsize := v.same.nodeSize
    rw [hzero, UInt16.toNat_zero] at hsize
    omega
  rw [HfsVolume.nodeSize, if_pos hne, UInt16.toNat_toUInt32, v.same.nodeSize]

theorem node_end (hn : n < hfs.totalNodes) :
    n * hfs.nodeSize + hfs.nodeSize ≤ (catalogBlocks hfs).length * hfs.blockSize := by
  rw [← Nat.succ_mul]
  exact (Nat.mul_le_mul_right _ hn).trans v.sound.catalog_covers

theorem nodeBytes_eq {k : ℕ} (hn : n < hfs.totalNodes) (hk : k < hfs.nodeSize) :
    nodeBytes disk vol n k = (contents hfs img).node n k := by
  rw [nodeBytes, v.toNat_nodeSize, v.forkByte_eq v.same.catalog v.sound.geometry.catalog_lt,
    contents]
  dsimp only
  rw [if_pos hn, overlay_of_lt hk]
  rfl

theorem nodeReadable_eq (hn : n < hfs.totalNodes) : nodeReadable disk vol n = true := by
  have hend := v.node_end hn
  have hlarge := v.large
  rw [nodeReadable_iff, v.blockOk_iff v.same.catalog v.sound.geometry.catalog_lt,
    v.toNat_nodeSize, v.same.bs, Nat.div_lt_iff_lt_mul v.blockSize_pos]
  omega

theorem sameKeys (hn : n < hfs.totalNodes) (hkind : (contents hfs img).node n 8 = 255) :
    SameKeys ((contents hfs img).node n) (nodeBytes disk vol n) hfs.nodeSize :=
  (v.sound.leaf n hn hkind).sameKeys_of_agree fun _ hk ↦ v.nodeBytes_eq hn hk

theorem kind_eq (hn : n < hfs.totalNodes) : nodeBytes disk vol n 8 = (contents hfs img).node n 8 :=
  v.nodeBytes_eq hn (by have := v.large; omega)

theorem leafRecords (hn : n < hfs.totalNodes) (hkind : (contents hfs img).node n 8 = 255) :
    LeafRecords (nodeBytes disk vol n) hfs.nodeSize := by
  refine (v.sameKeys hn hkind).leafRecords (v.sound.leaf n hn hkind) fun k _ hlt ↦ ?_
  exact v.nodeBytes_eq hn (by omega)

theorem layout : CatalogLayout disk vol := by
  have hlarge := v.large
  have hleaves := v.sound.leaves
  obtain ⟨e, he⟩ := v.sized.nodeSize
  have hblock : vol.blockSize.toNat = hfs.blockSize := by
    rw [← v.same.bs, (vol.bs_of_blockSize v.same.blockSize).2.1]
  refine ⟨v.same.blockSize, ⟨e, ?_, v.same.nodeSize.trans he⟩, ?_, ?_, ?_, fun x p hp ↦ ?_,
    fun n _ hlast hkind ↦ ?_⟩
  · rw [he, show 512 = 2 ^ 9 from rfl] at hlarge
    exact (Nat.pow_le_pow_iff_right Nat.one_lt_two).mp hlarge
  · rw [v.same.nodeSize, hblock]
    exact v.sized.nodeSize_le
  · rw [v.same.catalog_size]
    exact v.sized.catalog_lt
  · rw [v.same.last, v.toNat_nodeSize, v.same.catalog_size]
    exact (Nat.mul_le_mul_right _ hleaves).trans v.sized.catalog_covers
  · rw [v.same.catalog] at hp
    exact v.sound.sector_lt (v.sound.geometry.catalog_lt p (List.mem_of_getElem? hp)) v.sized v.same
  · have hn : n < hfs.totalNodes := by
      rw [v.same.last] at hlast
      omega
    rw [v.toNat_nodeSize]
    rw [v.kind_eq hn] at hkind
    exact (v.leafRecords hn hkind).leafLayout

/-! ### Scans -/

variable {q : ScanQuery} {pos : ℕ × ℕ}

theorem offsetAt_eq (hn : pos.1 < hfs.totalNodes) (hkind : (contents hfs img).node pos.1 8 = 255)
    (hindex : pos.2 ≤ numRecords ((contents hfs img).node pos.1)) :
    offsetAt disk vol pos = (contents hfs img).offset hfs pos := by
  rw [offsetAt, v.toNat_nodeSize, (v.sameKeys hn hkind).offset _ hindex]
  rfl

theorem sameRecord (hn : pos.1 < hfs.totalNodes) (hkind : (contents hfs img).node pos.1 8 = 255)
    (hindex : pos.2 < numRecords ((contents hfs img).node pos.1)) :
    SameRecord ((contents hfs img).node pos.1) (nodeBytes disk vol pos.1)
      ((contents hfs img).offset hfs pos) := (v.sameKeys hn hkind).record pos.2 hindex

theorem takesAt_iff (hn : pos.1 < hfs.totalNodes)
    (hkind : (contents hfs img).node pos.1 8 = 255)
    (hindex : pos.2 < numRecords ((contents hfs img).node pos.1)) :
    TakesAt disk vol q pos ↔ (contents hfs img).Takes hfs q pos := by
  have hinside := (v.sound.leaf pos.1 hn hkind).recordInside hindex
  have hsame := v.sameRecord hn hkind hindex
  have hname := hinside.name
  have htype := hinside.type
  have hdata : recordData ((contents hfs img).node pos.1)
      (recordOffset ((contents hfs img).node pos.1) hfs.nodeSize pos.2)
        = recordOffset ((contents hfs img).node pos.1) hfs.nodeSize pos.2 + 2 + _ := rfl
  rw [TakesAt, Takes, v.offsetAt_eq hn hkind hindex.le, v.toNat_nodeSize, hsame.data, hsame.parent,
    hsame.name, IsWanted, hsame.type, Contents.Takes, IsWanted, Contents.offset]
  exact ⟨fun h ↦ h.2.2, fun h ↦ ⟨by omega, by omega, h⟩⟩

theorem not_takesAt_free (hn : n < hfs.totalNodes) (hkind : (contents hfs img).node n 8 = 255) :
    ¬TakesAt disk vol q (n, numRecords (nodeBytes disk vol n)) := by
  have hfree := (v.leafRecords hn hkind).leafLayout.hitAt_free v.sound.nodeSize_even q
  rw [hitAt_eq_none_iff] at hfree
  rw [TakesAt, offsetAt, v.toNat_nodeSize]
  exact hfree

theorem find_slots (hn : n < hfs.totalNodes) :
    ((scannedSlots (nodeBytes disk vol n) hfs.nodeSize).map fun i ↦ (n, i)).find?
        (fun pos ↦ decide (TakesAt disk vol q pos))
      = ((visitedRecords ((contents hfs img).node n)).map fun i ↦ (n, i)).find?
        fun pos ↦ decide ((contents hfs img).Takes hfs q pos) := by
  rw [List.find?_map, List.find?_map, scannedSlots, visitedRecords, v.kind_eq hn]
  by_cases hkind : (contents hfs img).node n 8 = 255
  · have hkeys := v.sameKeys hn hkind
    have htable := (v.sound.leaf n hn hkind).table
    rw [← hkeys.num] at htable
    rw [if_pos ⟨hkind, htable⟩, if_pos hkind]
    cases hnum : numRecords (nodeBytes disk vol n) with
    | zero =>
      rw [← hkeys.num, hnum]
      rfl
    | succ k =>
      have hfree := v.not_takesAt_free (q := q) hn hkind
      rw [hnum] at hfree
      rw [List.range_succ_eq_map, List.map_cons, List.find?_cons_of_neg (by simpa using hfree),
        List.map_map, ← hkeys.num, hnum, Nat.add_sub_cancel]
      have hshift : (fun r ↦ k + 1 - r) ∘ Nat.succ = fun r ↦ k - r :=
        funext fun r ↦ Nat.add_sub_add_right k 1 r
      rw [hshift]
      congr 1
      refine List.find?_congr fun i hi ↦ ?_
      obtain ⟨r, hr, rfl⟩ := List.mem_map.mp hi
      have hindex : k - r < numRecords ((contents hfs img).node n) := by
        rw [← hkeys.num, hnum]
        omega
      rw [Function.comp_apply, Function.comp_apply, decide_eq_decide]
      exact @takesAt_iff _ _ _ _ v _ (n, k - r) hn hkind hindex
  · rw [if_neg fun h ↦ hkind h.1, if_neg hkind]
    rfl

/-- **A scan of the booter** ends where it does in the contents. -/
theorem selected_eq (q : ScanQuery) : selected disk vol q = (contents hfs img).child hfs q := by
  have hfirst := v.sound.firstLeaf_le
  have hleaves := v.sound.leaves
  have hrange : ∀ n ∈ List.range' hfs.firstLeaf (hfs.lastLeaf - hfs.firstLeaf + 1),
      n < hfs.totalNodes := by
    intro n hn
    rw [List.mem_range'_1] at hn
    omega
  have hall : (List.range' hfs.firstLeaf (hfs.lastLeaf - hfs.firstLeaf + 1)).takeWhile
      (nodeReadable disk vol) = List.range' hfs.firstLeaf (hfs.lastLeaf - hfs.firstLeaf + 1) :=
    List.takeWhile_eq_self_iff.mpr fun n hn ↦ v.nodeReadable_eq (hrange n hn)
  rw [selected, scanned, scannedFrom, v.same.first, v.same.last, hall, v.toNat_nodeSize,
    Contents.child, Contents.visits, List.find?_flatMap, List.find?_flatMap]
  exact findSome_congr fun n hn ↦ v.find_slots (hrange n hn)

theorem slotsInside : SlotsInside disk vol := by
  intro pos hpos q
  refine v.layout.slotInside hpos fun hindex htype _ ↦ ?_
  have hrecord := isRecord_of_mem_scanned hpos hindex
  have hn : pos.1 < hfs.totalNodes := by
    have hle := hrecord.le_last
    rw [v.same.last] at hle
    exact hle.trans_lt v.sound.leaves
  have hkind := hrecord.leaf
  rw [v.kind_eq hn] at hkind
  have hleaf := v.leafRecords hn hkind
  have hend := hleaf.end_le pos.2 hindex
  have hfree := hleaf.free_le
  rw [offsetAt, v.toNat_nodeSize] at htype ⊢
  rw [recordEnd_folder htype] at hend
  omega

/-! ### Paths -/

variable {parent : UInt32} {name : List UInt8} {secbuf : UInt32} {m : Mem}

theorem recordEnd_le (h : (contents hfs img).Visited hfs pos) :
    recordEnd ((contents hfs img).node pos.1) ((contents hfs img).offset hfs pos)
      ≤ hfs.nodeSize := by
  have hleaf := v.sound.leaf pos.1 (h.le_last.trans_lt v.sound.leaves) h.leaf
  have hend := hleaf.end_le pos.2 h.index_lt
  have hfree := hleaf.free_le
  rw [Contents.offset]
  omega

theorem hitOf_folder (h : (contents hfs img).child hfs (folderQuery parent name) = some pos) :
    hitOf disk vol (folderQuery parent name) pos
      = some (.folder ((contents hfs img).folderNumber hfs pos)) := by
  obtain ⟨hvisited, htakes⟩ := v.sound.child_spec h
  have hn := hvisited.le_last.trans_lt v.sound.leaves
  have hsame := v.sameRecord hn hvisited.leaf hvisited.index_lt
  have hend := v.recordEnd_le hvisited
  have htype := htakes.folder
  rw [recordEnd_folder htype] at hend
  have hat := (v.takesAt_iff hn hvisited.leaf hvisited.index_lt).mpr htakes
  rw [hitOf, hitAt, if_pos (by exact hat), v.offsetAt_eq hn hvisited.leaf hvisited.index_lt.le,
    hsame.type, if_pos htype, hsame.data, Contents.folderNumber, Contents.dataOffset,
    be32_congr fun k _ hlt ↦ v.nodeBytes_eq hn (by omega)]

theorem hitOf_file (h : (contents hfs img).child hfs (fileQuery parent name) = some pos) :
    hitOf disk vol (fileQuery parent name) pos
      = some (.file ((contents hfs img).dataFork hfs pos)) := by
  obtain ⟨hvisited, htakes⟩ := v.sound.child_spec h
  have hn := hvisited.le_last.trans_lt v.sound.leaves
  have hsame := v.sameRecord hn hvisited.leaf hvisited.index_lt
  have hend := v.recordEnd_le hvisited
  have htype : recordType ((contents hfs img).node pos.1) ((contents hfs img).offset hfs pos) = 2 :=
    htakes.2.2.elim (fun hfolder ↦ absurd hfolder.2 Bool.false_ne_true) And.left
  rw [recordEnd_file htype] at hend
  have hat := (v.takesAt_iff hn hvisited.leaf hvisited.index_lt).mpr htakes
  have hfolder : ¬(2 : UInt16) = 1 := by decide
  rw [hitOf, hitAt, if_pos (by exact hat), v.offsetAt_eq hn hvisited.leaf hvisited.index_lt.le,
    hsame.type, htype, if_neg hfolder, recordFork_eq, hsame.data, Contents.dataFork,
    Contents.dataOffset, forkData_congr fun k _ hlt ↦ v.nodeBytes_eq hn (by omega)]

theorem scan_eq (q : ScanQuery) (secbuf : UInt32) (m : Mem) :
    (catalogScanChild disk vol secbuf q 0 m).1.2
      = ((contents hfs img).child hfs q).bind (hitOf disk vol q) := by
  rw [catalogScanChild_selected v.layout.geometry v.slotsInside, v.selected_eq]

theorem scan_none (h : (contents hfs img).child hfs q = none) (secbuf : UInt32) (m : Mem) :
    ∃ rtype m', catalogScanChild disk vol secbuf q 0 m = ((rtype, none), m') := by
  have hscan := v.scan_eq q secbuf m
  rw [h, Option.bind_none] at hscan
  exact ⟨_, _, Prod.ext (Prod.ext rfl hscan) rfl⟩

theorem scan_some {hit : ScanHit} (h : (contents hfs img).child hfs q = some pos)
    (hhit : hitOf disk vol q pos = some hit) (secbuf : UInt32) (m : Mem) :
    ∃ m', catalogScanChild disk vol secbuf q 0 m = ((hit.recordType, some hit), m') := by
  have hscan := v.scan_eq q secbuf m
  rw [h, Option.bind_some, hhit] at hscan
  have hresult : catalogScanChild disk vol secbuf q 0 m = ((_, some hit), _) :=
    Prod.ext (Prod.ext rfl hscan) rfl
  rw [catalogScanChild_type hresult] at hresult
  exact ⟨_, hresult⟩

/-- **The walk of the booter** comes to the file that the components of the path lead to. -/
theorem findFile_fst {fuel : ℕ} {path : List UInt8} (hfuel : (pathComponents path).length ≤ fuel) :
    (hfsplusFindFile disk vol secbuf fuel parent path m).1
      = ((contents hfs img).walk hfs parent (pathComponents path)).map
          ((contents hfs img).dataFork hfs) := by
  induction fuel generalizing parent path m with
  | zero =>
    rw [List.eq_nil_of_length_eq_zero (Nat.le_zero.mp hfuel)]
    rfl
  | succ fuel ih =>
    rw [hfsplusFindFile]
    cases hsplit : splitNextPathComponent path 128 with
    | none =>
      rw [splitNextPathComponent] at hsplit
      split_ifs at hsplit with hnil
      rw [pathComponents, List.parts_eq_nil hnil]
      rfl
    | some split =>
      obtain ⟨comp, rest⟩ := split
      obtain ⟨name, hparts, rfl⟩ := splitNextPathComponent_parts hsplit
      rw [hparts, List.length_cons] at hfuel
      rw [hparts]
      dsimp only
      by_cases hmore : pathHasMore rest = true
      · rw [if_pos hmore]
        rw [pathHasMore_iff] at hmore
        rw [Contents.walk_cons _ _ _ _ hmore]
        cases hchild : (contents hfs img).child hfs (folderQuery parent (name.take 127)) with
        | none =>
          obtain ⟨rtype, m₁, hscan⟩ := v.scan_none hchild secbuf m
          rw [folderQuery] at hscan
          rw [hscan]
          rfl
        | some dir =>
          obtain ⟨m₁, hscan⟩ := v.scan_some hchild (v.hitOf_folder hchild) secbuf m
          rw [folderQuery] at hscan
          rw [hscan, Option.bind_some, ← ih (by omega)]
          rfl
      · rw [if_neg hmore]
        rw [pathHasMore_iff, not_not] at hmore
        rw [hmore, Contents.walk]
        cases hchild : (contents hfs img).child hfs (fileQuery parent (name.take 127)) with
        | none =>
          obtain ⟨rtype, m₁, hscan⟩ := v.scan_none hchild secbuf m
          rw [fileQuery] at hscan
          rw [hscan]
          rfl
        | some pos =>
          obtain ⟨m₁, hscan⟩ := v.scan_some hchild (v.hitOf_file hchild) secbuf m
          rw [fileQuery] at hscan
          rw [hscan]
          rfl

/-! ### Files -/

theorem isFile_of_walk {names : List (List UInt8)}
    (h : (contents hfs img).walk hfs parent names = some pos) :
    (contents hfs img).Visited hfs pos ∧ (contents hfs img).IsFile hfs pos := by
  induction names generalizing parent with
  | nil => exact absurd h (Option.some_ne_none _).symm
  | cons name names ih =>
    cases names with
    | nil =>
      obtain ⟨hvisited, htakes⟩ := v.sound.child_spec h
      have htype : (contents hfs img).typeOf hfs pos = 2 :=
        htakes.2.2.elim (fun hfolder ↦ absurd hfolder.2 Bool.false_ne_true) And.left
      exact ⟨hvisited, hvisited.le_last.trans_lt v.sound.leaves, hvisited.leaf, hvisited.index_lt,
        htype⟩
    | cons next names =>
      obtain ⟨dir, -, hrest⟩ := Option.bind_eq_some_iff.mp h
      exact ih hrest

variable {path : List UInt8} {dst cap : UInt32}

theorem find_eq (secbuf : UInt32) (path : List UInt8) (m : Mem) :
    (hfsplusFindFile disk vol secbuf path.length 2 path m).1
      = ((contents hfs img).walk hfs 2 (pathComponents path)).map
          ((contents hfs img).dataFork hfs) := v.findFile_fst (List.length_parts_le _ _)

theorem readFile_none (h : (contents hfs img).walk hfs 2 (pathComponents path) = none) :
    (hfsplusReadFile disk vol secbuf path dst cap m).1 = none := by
  have hfind := v.find_eq secbuf path m
  rw [h, Option.map_none] at hfind
  rw [hfsplusReadFile]
  generalize hfsplusFindFile disk vol secbuf path.length 2 path m = found at hfind
  obtain ⟨found, m₁⟩ := found
  obtain rfl : found = none := hfind
  rfl

section Read

variable (h : (contents hfs img).walk hfs 2 (pathComponents path) = some pos)
include h

theorem dataBlock_lt : ∀ b ∈ (contents hfs img).blocksOf hfs (.data pos), b < hfs.totalBlocks :=
  v.sound.owned.lt (.data pos) (v.isFile_of_walk h).2

/-- **A file that can be read** is read as it is. -/
theorem readFile_some (hread : (contents hfs img).Readable hfs cap.toNat pos)
    (hapart : Apart dst cap.toNat secbuf 8192) (m : Mem) :
    ∃ m', hfsplusReadFile disk vol secbuf path dst cap m
        = (some ((contents hfs img).dataFork hfs pos).size.toUInt32, m') ∧
      ∀ k < ((contents hfs img).dataFork hfs pos).size.toNat, m' (dst + .ofNat k)
        = bytesOf hfs.blockSize ((contents hfs img).blocksOf hfs (.data pos)) img k := by
  have hle := hread.le
  have hext := (contents hfs img).forkBlock_dataFork hfs pos
  have hblocks := v.dataBlock_lt h
  have hfind := v.find_eq secbuf path m
  rw [h, Option.map_some] at hfind
  have hok := hfsplusReadFile_fst v.same.sane dst hfind hread.nonempty hle
    fun x hx ↦ by
      rw [v.blockOk_iff hext hblocks, v.same.bs, Nat.div_lt_iff_lt_mul v.blockSize_pos]
      exact hx.trans_le hread.covered
  obtain ⟨fk, hfk, hsize, -, hbytes⟩ := hfsplusReadFile_bytes v.same.sane hapart
    (Prod.ext hok rfl : hfsplusReadFile disk vol secbuf path dst cap m = (_, _))
  obtain rfl := Option.some_inj.mp (hfind.symm.trans hfk)
  refine ⟨_, Prod.ext hok rfl, fun k hk ↦ ?_⟩
  have hbyte := hbytes (fun x _ _ p hp ↦ ?_) k (by rw [hsize]; exact hk)
  · rw [v.forkByte_eq hext hblocks] at hbyte
    rw [bytesOf, hbyte, Option.getD_some]
  · rw [hext] at hp
    exact v.sound.sector_lt (hblocks p (List.mem_of_getElem? hp)) v.sized v.same

theorem readFile_of_not_readable (hread : ¬(contents hfs img).Readable hfs cap.toNat pos) :
    (hfsplusReadFile disk vol secbuf path dst cap m).1 = none := by
  have hlt := cap.toNat_lt
  have hext := (contents hfs img).forkBlock_dataFork hfs pos
  have hfind := v.find_eq secbuf path m
  rw [h, Option.map_some] at hfind
  rw [hfsplusReadFile]
  generalize hfsplusFindFile disk vol secbuf path.length 2 path m = found at hfind
  obtain ⟨found, m₁⟩ := found
  obtain rfl : found = some _ := hfind
  dsimp only
  generalize hfk : (contents hfs img).dataFork hfs pos = fk at hext
  by_cases hcap : cap.toUInt64 < fk.size
  · rw [if_pos hcap]
  rw [if_neg hcap]
  rw [UInt64.lt_iff_toNat_lt, UInt32.toNat_toUInt64, not_lt] at hcap
  have hsize : fk.size.toUInt32.toNat = fk.size.toNat := by
    rw [UInt64.toNat_toUInt32, Nat.mod_eq_of_lt (by omega)]
  have hzero : (0 : UInt32).toNat = 0 := rfl
  -- an empty fork, or one that ends behind its extents
  have hfail : (forkRead disk vol secbuf fk 0 dst fk.size.toUInt32 m₁).1 = false := by
    rcases Nat.eq_zero_or_pos fk.size.toNat with hempty | hpos
    · have hinside : fk.size ≤ (0 : UInt32).toUInt64 := by
        rw [UInt64.le_iff_toNat_le, UInt32.toNat_toUInt64]
        omega
      rw [forkRead, if_pos hinside, ite_self, ite_self]
    · rw [← Bool.not_eq_true, forkRead_eq_loop disk v.same.sane (by omega) (by omega),
        forkReadLoop_fst_iff v.same.sane le_rfl (by omega)]
      intro hall
      have hlast := hall (fk.size.toNat - 1) (by omega) (by omega)
      rw [v.blockOk_iff hext (v.dataBlock_lt h), v.same.bs,
        Nat.div_lt_iff_lt_mul v.blockSize_pos] at hlast
      refine hread ⟨by rw [hfk]; exact hpos, by rw [hfk]; exact hcap, ?_⟩
      rw [hfk]
      omega
  generalize forkRead disk vol secbuf fk 0 dst fk.size.toUInt32 m₁ = result at hfail
  obtain ⟨ok, m₂⟩ := result
  obtain rfl : ok = false := hfail
  rfl

end Read

end View

end CaribeOS.HfsScript
