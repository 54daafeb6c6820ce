import CaribeOS.Hfs.Mount

/-!
# The kernel's root probe

The kernel has a reader of its own for the HFS+ catalog (`kernel_xnu_entry.c`): `hfs_probe_root`
reads the volume header and the B-tree header, `hfs_find_root_file` goes through the leaves for a
file of the root folder. It reads whole blocks of at most 4096 bytes to `g_block` and `g_node` and
takes a node for a block.

Its scan starts at the entry of the free space and leaves out record `0`, like that of
`catalog_scan_child`. `booter_and_kernel_agree` says that the two find the same file.
-/

namespace CaribeOS

open ByteMemory

/-! ## The kernel's functions as they stand in the source -/

/-- The `g_hfs_…` globals and `g_catalog_extents`. -/
structure HfsGlobals where
  blockSize : UInt32
  firstLeaf : UInt32
  lastLeaf : UInt32
  totalNodes : UInt32
  nodeSize : UInt32
  catalogExtents : Fin 8 → Extent

/-- `hfs_file_t`. -/
structure HfsFile where
  found : UInt32
  fileId : UInt32
  logicalSize : UInt64
  extents : Fin 8 → Extent

/-- `streq`, on strings given without the terminating zero. -/
def streq : List UInt8 → List UInt8 → Bool
  | [], [] => true
  | [], y :: _ => (0 : UInt8) = y
  | x :: _, [] => x = 0
  | x :: xs, y :: ys =>
    if x ≠ 0 ∧ y ≠ 0 then if x ≠ y then false else streq xs ys
    else x = y

/-- `hfs_ascii_name`: the characters put before the terminating zero. -/
def hfsAsciiName (b : ℕ → UInt8) (src : ℕ) (chars : UInt16) (cap : ℕ) : List UInt8 :=
  ((List.range chars.toNat).map fun i ↦
    let ch := be16 b (src + 2 * i)
    if ch < 128 then ch.toUInt8 else 63).take (cap - 1)

/-- `hfs_read_extents`. -/
def hfsReadExtents (b : ℕ → UInt8) (src : ℕ) (i : Fin 8) : Extent :=
  ⟨be32 b (src + 8 * i), be32 b (src + 8 * i + 4)⟩

section Code

variable (disk : Disk) (g : HfsGlobals)

/-- `virtio_blk_read` to a buffer of the kernel, given by its bytes. -/
def virtioBlkRead (lba count : UInt32) (buf : ℕ → UInt8) : Bool × (ℕ → UInt8) :=
  if count = 0 then (true, buf)
  else if disk.ok lba.toUInt64 count then
    (true, fun k ↦ if k < 512 * count.toNat then disk.bytes (512 * lba.toNat + k) else buf k)
  else (false, buf)

/-- `hfs_read_block`. -/
def hfsReadBlock (block : UInt32) (buf : ℕ → UInt8) : Bool × (ℕ → UInt8) :=
  if g.blockSize = 0 ∨ 4096 < g.blockSize ∨ g.blockSize % 512 ≠ 0 then (false, buf)
  else
    let sectorsPerBlock := g.blockSize / 512
    virtioBlkRead disk (block * sectorsPerBlock) sectorsPerBlock buf

/-- `hfs_read_catalog_node`, to `g_node`. -/
def hfsReadCatalogNode (node : UInt32) (gNode : ℕ → UInt8) : Bool × (ℕ → UInt8) :=
  if g.nodeSize = 0 ∨ g.blockSize = 0 ∨ 4096 < g.nodeSize ∨ g.nodeSize ≠ g.blockSize then
    (false, gNode)
  else
    let nodesPerBlock := g.blockSize / g.nodeSize
    if nodesPerBlock = 0 then (false, gNode)
    else
      let logicalBlock := node / nodesPerBlock
      let physicalBlock := (findExtent (List.ofFn g.catalogExtents) logicalBlock).getD 0
      if physicalBlock = 0 then (false, gNode) else hfsReadBlock disk g physicalBlock gNode

/-- One turn of the record loop of `hfs_find_root_file`, for the record at `recOff`. -/
def findRootRecord (name : List UInt8) (gNode : ℕ → UInt8) (recOff : UInt32) : Option HfsFile :=
  if g.nodeSize ≤ recOff + 8 then none
  else
    let keyLen := be16 gNode recOff.toNat
    let parent := be32 gNode (recOff + 2).toNat
    let nameLen := be16 gNode (recOff + 6).toNat
    let dataOff := recOff + 2 + keyLen.toUInt32
    if g.nodeSize < dataOff + 88 + 80 ∨ g.nodeSize < recOff + 8 + nameLen.toUInt32 * 2 then none
    else if parent ≠ 2 ∨ ¬streq (hfsAsciiName gNode (recOff + 8).toNat nameLen 128) name then none
    else
      let recordType := be16 gNode dataOff.toNat
      if recordType = 2 then
        let fork := (dataOff + 88).toNat
        some ⟨1, be32 gNode (dataOff + 8).toNat, be64 gNode fork, hfsReadExtents gNode (fork + 16)⟩
      else none

/-- The record loop over the entries `rs` of the offset table. -/
def findRootRecords (name : List UInt8) (gNode : ℕ → UInt8) (records : UInt16) :
    List ℕ → Option HfsFile
  | [] => none
  | r :: rs =>
    let idxOff := g.nodeSize - 2 * (records.toUInt32 + 1) + .ofNat (r * 2)
    match findRootRecord g name gNode (be16 gNode idxOff.toNat).toUInt32 with
    | some file => some file
    | none => findRootRecords name gNode records rs

/-- The node loop. For a `last` below `2 ^ 32 - 1` it ends there, so `last - node + 1` bounds the
rounds. -/
def findRootNodes (name : List UInt8) (last : UInt32) :
    ℕ → UInt32 → (ℕ → UInt8) → Option HfsFile × (ℕ → UInt8)
  | 0, _, gNode => (none, gNode)
  | fuel + 1, node, gNode =>
    if last < node then (none, gNode)
    else
      match hfsReadCatalogNode disk g node gNode with
      | (false, gNode) => (none, gNode)
      | (true, gNode) =>
        if gNode 8 ≠ 255 then
          if node = last then (none, gNode) else findRootNodes name last fuel (node + 1) gNode
        else
          let records := be16 gNode 10
          if records = 0 ∨ g.nodeSize < 2 * (records.toUInt32 + 1) then
            findRootNodes name last fuel (node + 1) gNode
          else
            match findRootRecords g name gNode records (List.range records.toNat) with
            | some file => (some file, gNode)
            | none => findRootNodes name last fuel (node + 1) gNode

/-- `hfs_find_root_file`: the file, `none` for the return value `-1`. -/
def hfsFindRootFile (name : List UInt8) (gNode : ℕ → UInt8) : Option HfsFile × (ℕ → UInt8) :=
  if g.firstLeaf = 0 ∨ g.lastLeaf = 0 ∨ g.lastLeaf < g.firstLeaf then
    let last := if g.totalNodes ≠ 0 then g.totalNodes - 1 else 1
    findRootNodes disk g name last last.toNat 1 gNode
  else
    findRootNodes disk g name g.lastLeaf ((g.lastLeaf - g.firstLeaf).toNat + 1) g.firstLeaf gNode

end Code

/-- The part of `hfs_probe_root` that fills in the globals, `none` where it returns before. -/
def hfsProbeRoot (disk : Disk) (gSector gBlock : ℕ → UInt8) : Option HfsGlobals :=
  match virtioBlkRead disk 2 1 gSector with
  | (false, _) => none
  | (true, gSector) =>
    let sig := be16 gSector 0
    if sig ≠ 0x482b ∧ sig ≠ 0x4858 then none
    else
      let g : HfsGlobals := ⟨be32 gSector 40, 0, 0, 0, 0, hfsReadExtents gSector (272 + 16)⟩
      match hfsReadBlock disk g (g.catalogExtents 0).start gBlock with
      | (false, _) => none
      | (true, gBlock) =>
        some { g with
          firstLeaf := be32 gBlock (14 + 10)
          lastLeaf := be32 gBlock (14 + 14)
          nodeSize := (be16 gBlock (14 + 18)).toUInt32
          totalNodes := be32 gBlock (14 + 22) }

/-! ## The kernel's functions in terms of the node -/

theorem streq_eq_sEq (xs ys : List UInt8) : streq xs ys = sEq xs ys := by
  induction xs generalizing ys with
  | nil =>
    cases ys with
    | nil => rfl
    | cons y ys => simp [streq, sEq, eq_comm]
  | cons x xs ih =>
    cases ys with
    | nil => rfl
    | cons y ys =>
      rw [streq, sEq]
      by_cases hx : x = 0
      · by_cases hy : y = 0 <;> simp [hx, hy, eq_comm]
      · by_cases hy : y = 0
        · simp [hx, hy]
        · have hne : ¬(x = 0 ∨ y = 0) := not_or.mpr ⟨hx, hy⟩
          rw [if_pos ⟨hx, hy⟩, if_neg hne, ih]

/-- The file as `catalog_scan_child` reports it. -/
def HfsFile.hit (file : HfsFile) : ScanHit := .file ⟨file.logicalSize, file.extents⟩

/-- The record at `o` is inside a node of `n` bytes, as far as the kernel reads it. -/
structure KernelInside (b : ℕ → UInt8) (n o : ℕ) : Prop where
  name : o + 8 + 2 * (recordName b o).length ≤ n
  data : recordData b o + 168 ≤ n

section Kernel

variable {g : HfsGlobals} {gNode b : ℕ → UInt8}

/-- **One record**, to the kernel. -/
theorem findRootRecord_hit (hsize : g.nodeSize = 4096) (hview : ∀ k < 4096, gNode k = b k) {o : ℕ}
    (ho : o < 65536) (hin : KernelInside b 4096 o) (name : List UInt8) :
    (findRootRecord g name gNode (.ofNat o)).map HfsFile.hit
      = hitAt (fileQuery 2 name) b 4096 o := by
  have hname := hin.name
  have hdata := hin.data
  have hdef : recordData b o = o + 2 + recordKeyLength b o := rfl
  have h16 : ∀ x, x + 2 ≤ 4096 → be16 gNode x = be16 b x := fun x hx ↦
    be16_congr fun k _ hlt ↦ hview k (by omega)
  have h32 : ∀ x, x + 4 ≤ 4096 → be32 gNode x = be32 b x := fun x hx ↦
    be32_congr fun k _ hlt ↦ hview k (by omega)
  have h64 : ∀ x, x + 8 ≤ 4096 → be64 gNode x = be64 b x := fun x hx ↦
    be64_congr fun k _ hlt ↦ hview k (by omega)
  have hadd : ∀ x y : ℕ, x + y ≤ 4096 → (UInt32.ofNat x + .ofNat y).toNat = x + y := by
    intro x y hxy
    rw [← UInt32.ofNat_add, toNat_ofNat_lt (by omega)]
  have hlt : ∀ x : UInt32, x.toNat ≤ 4096 → ¬(4096 : UInt32) < x := fun x hx ↦ by
    exact not_lt.mpr hx
  have ho0 : (UInt32.ofNat o).toNat = o := by rw [toNat_ofNat_lt (by omega)]
  have ho2 : (UInt32.ofNat o + 2).toNat = o + 2 := hadd o 2 (by omega)
  have ho6 : (UInt32.ofNat o + 6).toNat = o + 6 := hadd o 6 (by omega)
  have ho8 : (UInt32.ofNat o + 8).toNat = o + 8 := hadd o 8 (by omega)
  have hskip : ¬(4096 : UInt32) ≤ .ofNat o + 8 := by
    rw [UInt32.le_iff_toNat_le, ho8, show (4096 : UInt32).toNat = 4096 from rfl]
    omega
  have hlen : (recordName b o).length = (be16 b (o + 6)).toNat := by
    rw [recordName, List.length_map, List.length_range]
  -- the two checks of the kernel on the record
  have hfits : ¬((4096 : UInt32) < .ofNat (recordData b o) + 88 + 80 ∨
      (4096 : UInt32) < .ofNat o + 8 + (be16 b (o + 6)).toUInt32 * 2) := by
    rintro (h | h)
    · refine hlt _ ?_ h
      rw [show (88 : UInt32) = .ofNat 88 from rfl, show (80 : UInt32) = .ofNat 80 from rfl,
        ← UInt32.ofNat_add, hadd _ _ (by omega)]
      omega
    · refine hlt _ ?_ h
      have hmul : (be16 b (o + 6)).toUInt32 * 2 = .ofNat ((be16 b (o + 6)).toNat * 2) := by
        rfl
      rw [hmul, show (8 : UInt32) = .ofNat 8 from rfl, ← UInt32.ofNat_add, hadd _ _ (by omega)]
      omega
  have hascii : hfsAsciiName gNode (o + 8) (be16 b (o + 6)) 128
      = ((recordName b o).map asciiChar).take 127 := by
    rw [hfsAsciiName, recordName, List.map_map]
    congr 1
    refine List.map_congr_left fun i hi ↦ ?_
    rw [List.mem_range] at hi
    rw [Function.comp_apply, asciiChar, h16 _ (by omega)]
  have hd0 : (UInt32.ofNat (recordData b o)).toNat = recordData b o := by
    rw [toNat_ofNat_lt (by omega)]
  have hd88 : (UInt32.ofNat (recordData b o) + 88).toNat = recordData b o + 88 :=
    hadd (recordData b o) 88 (by omega)
  rw [findRootRecord, hsize, if_neg hskip]
  simp only [ho0, ho2, ho6, ho8, h16 o (by omega), h32 (o + 2) (by omega), h16 (o + 6) (by omega),
    ofNat_recordData, if_neg hfits, hascii, hd0, hd88, streq_eq_sEq, h16 (recordData b o) (by omega)]
  rw [← recordParent, ← recordType, hitAt]
  by_cases hmatch : recordParent b o ≠ 2 ∨ ¬sEq (((recordName b o).map asciiChar).take 127) name
  · rw [if_pos hmatch, if_neg]
    · rfl
    · rintro ⟨-, -, hp, hs, -⟩
      exact hmatch.elim (fun h ↦ h hp) fun h ↦ h ((sEq_iff _ _).mpr hs)
  · rw [if_neg hmatch]
    rw [not_or, not_not, not_not, sEq_iff] at hmatch
    by_cases htype : recordType b o = 2
    · have htakes : Takes (fileQuery 2 name) b 4096 o :=
        ⟨by omega, by omega, hmatch.1, hmatch.2, Or.inr ⟨htype, rfl⟩⟩
      have hfolder : ¬recordType b o = 1 := by rw [htype]; decide
      have hext : hfsReadExtents gNode (recordData b o + 88 + 16) = (recordFork b o).ext := by
        funext i
        rw [hfsReadExtents, h32 _ (by omega), h32 _ (by omega), recordFork]
        congr 2 <;> omega
      rw [if_pos htype, if_pos htakes, if_neg hfolder, Option.map_some, HfsFile.hit,
        h64 _ (by omega), hext]
      rfl
    · rw [if_neg htype, if_neg]
      · rfl
      · rintro ⟨-, -, -, -, ⟨-, h⟩ | ⟨h, -⟩⟩
        · exact Bool.noConfusion h
        · exact htype h

/-- **The record loop**, to the kernel. -/
theorem findRootRecords_hit (hsize : g.nodeSize = 4096) (hview : ∀ k < 4096, gNode k = b k)
    (htable : 2 * (numRecords b + 1) ≤ 4096) {rs : List ℕ} (hrs : ∀ r ∈ rs, r < numRecords b)
    (hin : ∀ r ∈ rs, KernelInside b 4096 (recordOffset b 4096 (numRecords b - r)))
    (name : List UInt8) :
    (findRootRecords g name gNode (be16 b 10) rs).map HfsFile.hit
      = rs.findSome? fun r ↦ hitAt (fileQuery 2 name) b 4096
          (recordOffset b 4096 (numRecords b - r)) := by
  induction rs with
  | nil => rfl
  | cons r rs ih =>
    rw [List.forall_mem_cons] at hrs hin
    have hidx : (g.nodeSize - 2 * ((be16 b 10).toUInt32 + 1) + .ofNat (r * 2)).toNat
        = 4096 - 2 * (numRecords b - r + 1) := by
      have hsub : (4096 : UInt32) - 2 * ((be16 b 10).toUInt32 + 1)
          = .ofNat (4096 - 2 * (numRecords b + 1)) := by
        rw [two_mul_numRecords, UInt32.ofNat_sub htable]
        rfl
      rw [hsize, hsub, ← UInt32.ofNat_add, toNat_ofNat_lt (by omega)]
      omega
    have hoff : (be16 gNode (4096 - 2 * (numRecords b - r + 1))).toUInt32
        = .ofNat (recordOffset b 4096 (numRecords b - r)) := by
      rw [be16_congr fun k _ hlt ↦ hview k (by omega), recordOffset, ← UInt16.toNat_toUInt32,
        UInt32.ofNat_toNat]
    have hrec := findRootRecord_hit hsize hview (recordOffset_lt b 4096 (numRecords b - r)) hin.1 name
    rw [findRootRecords, List.findSome?_cons, hidx, hoff, ← hrec]
    cases findRootRecord g name gNode (.ofNat (recordOffset b 4096 (numRecords b - r))) with
    | some file => rfl
    | none => exact ih hrs.2 hin.2

end Kernel

/-! ## Volumes that both readers are meant for -/

/-- The block that the kernel takes for the first node of the catalog. -/
def firstCatalogBlock (disk : Disk) (k : ℕ) : UInt8 :=
  disk.bytes (((forkData (volumeHeader disk) 272).ext 0).start.toNat * 4096 + k)

/-- The volume on the disk. -/
def volumeOn (disk : Disk) : HfsVolume := volumeOf (volumeHeader disk) (firstCatalogBlock disk)

/-- A volume with blocks and catalog nodes of 4096 bytes and a B-tree header that makes sense, on a
device that does not fail: the catalog is covered by blocks that are not block `0` and have sector
numbers of 32 bits, and the entries of its leaves are inside the nodes. -/
structure ProbedVolume (disk : Disk) : Prop where
  reads : ∀ lba count, disk.ok lba count = true
  sig : be16 (volumeHeader disk) 0 = 0x482b ∨ be16 (volumeHeader disk) 0 = 0x4858
  blockSize : be32 (volumeHeader disk) 40 = 4096
  nodeSize : be16 (firstCatalogBlock disk) 32 = 4096
  extent : ((forkData (volumeHeader disk) 272).ext 0).count ≠ 0
  first_pos : 0 < (volumeOn disk).firstLeafNode.toNat
  first_le : (volumeOn disk).firstLeafNode.toNat ≤ (volumeOn disk).lastLeafNode.toNat
  last_lt : (volumeOn disk).lastLeafNode.toNat < (volumeOn disk).totalCatalogNodes.toNat
  total_le : (volumeOn disk).totalCatalogNodes.toNat ≤ 1048576
  size : (volumeOn disk).totalCatalogNodes.toNat * 4096 ≤ (volumeOn disk).catalog.size.toNat
  block : ∀ node < (volumeOn disk).totalCatalogNodes.toNat, ∃ p,
    forkBlock (List.ofFn (volumeOn disk).catalog.ext) node = some p ∧ p ≠ 0 ∧ p < 536870912
  slots : ∀ node, (volumeOn disk).firstLeafNode.toNat ≤ node →
    node ≤ (volumeOn disk).lastLeafNode.toNat →
    ∀ i ∈ scannedSlots (nodeBytes disk (volumeOn disk) node) 4096,
      KernelInside (nodeBytes disk (volumeOn disk) node) 4096
        (recordOffset (nodeBytes disk (volumeOn disk) node) 4096 i)

/-- The kernel's globals for a volume. -/
def HfsVolume.globals (hfs : HfsVolume) : HfsGlobals where
  blockSize := hfs.blockSize
  firstLeaf := hfs.firstLeafNode
  lastLeaf := hfs.lastLeafNode
  totalNodes := hfs.totalCatalogNodes
  nodeSize := hfs.catalogNodeSize.toUInt32
  catalogExtents := hfs.catalog.ext

namespace ProbedVolume

variable {disk : Disk} (h : ProbedVolume disk)
include h

theorem volumeOn_nodeSize : (volumeOn disk).catalogNodeSize = 4096 ∧
    (volumeOn disk).nodeSize = 4096 := by
  have hnode : (volumeOn disk).catalogNodeSize = 4096 := by
    rw [volumeOn, volumeOf, h.nodeSize]
    rfl
  exact ⟨hnode, by rw [HfsVolume.nodeSize, hnode]; rfl⟩

theorem volumeOn_blockSize : (volumeOn disk).bs = 4096 ∧ (volumeOn disk).sectorsPerBlock = 8 := by
  have hbs : (volumeOn disk).bs = 4096 := by
    rw [HfsVolume.bs, volumeOn, volumeOf, h.blockSize]
    rfl
  exact ⟨hbs, by rw [HfsVolume.sectorsPerBlock, hbs]; rfl⟩

theorem forkBlock_zero : forkBlock (List.ofFn (forkData (volumeHeader disk) 272).ext) 0
    = some ((forkData (volumeHeader disk) 272).ext 0).start.toNat := by
  have hpos : 0 < ((forkData (volumeHeader disk) 272).ext 0).count.toNat := by
    refine Nat.pos_of_ne_zero fun hzero ↦ h.extent ?_
    rwa [← UInt32.toNat_inj]
  rw [List.ofFn_succ, forkBlock, if_pos hpos, Nat.add_zero]

theorem hfsplusMount_volumeOn (secbuf : UInt32) (m : Mem) :
    (hfsplusMount disk secbuf m).1 = some (volumeOn disk) := by
  obtain ⟨p, hp, -, hlt⟩ := h.block 0 (by have := h.last_lt; omega)
  have hstart : p = ((forkData (volumeHeader disk) 272).ext 0).start.toNat :=
    Option.some_inj.mp (hp.symm.trans h.forkBlock_zero)
  have hsize : 40 ≤ (volumeOn disk).catalog.size.toNat := by
    have := h.last_lt
    have := h.size
    omega
  rw [hfsplusMount_eq (h.reads _ _) h.sig (Or.inl h.blockSize) hsize h.forkBlock_zero ?_
    (h.reads _ _), h.blockSize]
  · rfl
  · rw [h.blockSize, ← hstart, show (4096 : UInt32).toNat = 4096 from rfl]
    omega

theorem hfsReadBlock_eq {g : HfsGlobals} (hbs : g.blockSize = 4096) {p : ℕ} (hp : p < 536870912)
    (buf : ℕ → UInt8) : ∃ buf', hfsReadBlock disk g (.ofNat p) buf = (true, buf') ∧
      ∀ k < 4096, buf' k = disk.bytes (p * 4096 + k) := by
  have hgood : ¬((4096 : UInt32) = 0 ∨ (4096 : UInt32) < 4096 ∨ (4096 : UInt32) % 512 ≠ 0) := by
    decide
  have hspb : (4096 : UInt32) / 512 = 8 := by decide
  have hlba : (UInt32.ofNat p * 8).toNat = p * 8 := by
    rw [show (8 : UInt32) = .ofNat 8 from rfl, ← UInt32.ofNat_mul, toNat_ofNat_lt (by omega)]
  rw [hfsReadBlock, hbs, if_neg hgood, hspb, virtioBlkRead, if_neg (by decide),
    if_pos (h.reads _ _)]
  refine ⟨_, rfl, fun k hk ↦ ?_⟩
  rw [if_pos (by rw [show (8 : UInt32).toNat = 8 from rfl]; omega), hlba]
  congr 1
  omega

theorem hfsProbeRoot_volumeOn (gSector gBlock : ℕ → UInt8) :
    hfsProbeRoot disk gSector gBlock = some (volumeOn disk).globals := by
  obtain ⟨p, hp, -, hlt⟩ := h.block 0 (by have := h.last_lt; omega)
  obtain rfl : p = ((forkData (volumeHeader disk) 272).ext 0).start.toNat :=
    Option.some_inj.mp (hp.symm.trans h.forkBlock_zero)
  rw [hfsProbeRoot, virtioBlkRead, if_neg (by decide), if_pos (h.reads _ _)]
  have hview : ∀ k < 512, (fun k ↦ if k < 512 * (1 : UInt32).toNat then
      disk.bytes (512 * (2 : UInt32).toNat + k) else gSector k) k = volumeHeader disk k := by
    intro k hk
    exact if_pos hk
  generalize (fun k ↦ if k < 512 * (1 : UInt32).toNat then
    disk.bytes (512 * (2 : UInt32).toNat + k) else gSector k) = header at hview ⊢
  have h16 : ∀ x, x + 2 ≤ 512 → be16 header x = be16 (volumeHeader disk) x := fun x hx ↦
    be16_congr fun k _ hlt ↦ hview k (by omega)
  have h32 : ∀ x, x + 4 ≤ 512 → be32 header x = be32 (volumeHeader disk) x := fun x hx ↦
    be32_congr fun k _ hlt ↦ hview k (by omega)
  have hgood : ¬(be16 (volumeHeader disk) 0 ≠ 0x482b ∧ be16 (volumeHeader disk) 0 ≠ 0x4858) := by
    rintro ⟨hplus, hx⟩
    exact h.sig.elim hplus hx
  have hext : hfsReadExtents header (272 + 16) = (forkData (volumeHeader disk) 272).ext := by
    funext i
    rw [hfsReadExtents, h32 _ (by omega), h32 _ (by omega), forkData]
    congr 2 <;> omega
  dsimp only
  rw [h16 0 (by omega), if_neg hgood, h32 40 (by omega), hext]
  obtain ⟨node, hread, hnode⟩ := h.hfsReadBlock_eq
    (g := ⟨be32 (volumeHeader disk) 40, 0, 0, 0, 0, (forkData (volumeHeader disk) 272).ext⟩)
    h.blockSize hlt gBlock
  rw [UInt32.ofNat_toNat] at hread
  have hn16 : ∀ x, x + 2 ≤ 4096 → be16 node x = be16 (firstCatalogBlock disk) x := fun x hx ↦
    be16_congr fun k _ hlt ↦ hnode k (by omega)
  have hn32 : ∀ x, x + 4 ≤ 4096 → be32 node x = be32 (firstCatalogBlock disk) x := fun x hx ↦
    be32_congr fun k _ hlt ↦ hnode k (by omega)
  rw [hread]
  dsimp only
  rw [hn32 _ (by omega), hn32 _ (by omega), hn32 _ (by omega), hn16 _ (by omega), HfsVolume.globals,
    h.volumeOn_nodeSize.1, h.nodeSize]
  rfl

theorem hfsReadCatalogNode_eq {node : UInt32}
    (hnode : node.toNat < (volumeOn disk).totalCatalogNodes.toNat) (gNode : ℕ → UInt8) :
    ∃ b, hfsReadCatalogNode disk (volumeOn disk).globals node gNode = (true, b) ∧
      ∀ k < 4096, b k = nodeBytes disk (volumeOn disk) node.toNat k := by
  obtain ⟨p, hp, hne, hlt⟩ := h.block node.toNat hnode
  have hbs : (volumeOn disk).globals.blockSize = 4096 := h.blockSize
  have hns : (volumeOn disk).globals.nodeSize = 4096 := by
    rw [HfsVolume.globals, h.volumeOn_nodeSize.1]
    rfl
  have hgood : ¬((4096 : UInt32) = 0 ∨ (4096 : UInt32) = 0 ∨ (4096 : UInt32) < 4096 ∨
      (4096 : UInt32) ≠ 4096) := by decide
  have hper : (4096 : UInt32) / 4096 = 1 := by decide
  have hdiv : node / 1 = node := by
    rw [← UInt32.toNat_inj, UInt32.toNat_div, show (1 : UInt32).toNat = 1 from rfl, Nat.div_one]
  have hphys : UInt32.ofNat p ≠ 0 := by
    rw [ne_eq, ← UInt32.toNat_inj, UInt32.toNat_ofNat', UInt32.toNat_zero,
      Nat.mod_eq_of_lt (by omega)]
    exact hne
  obtain ⟨b, hread, hb⟩ := h.hfsReadBlock_eq hbs hlt gNode
  refine ⟨b, ?_, fun k hk ↦ ?_⟩
  · rw [hfsReadCatalogNode, hns, hbs, if_neg hgood, hper, if_neg (by decide), hdiv]
    dsimp only
    rw [findExtent_eq]
    have hext : (volumeOn disk).globals.catalogExtents = (volumeOn disk).catalog.ext := rfl
    rw [hext, hp, Option.map_some, Option.getD_some, if_neg hphys, hread]
  · have hblock : (node.toNat * 4096 + k) / 4096 = node.toNat := by omega
    have hrem : (node.toNat * 4096 + k) % 4096 = k := by omega
    rw [hb k hk, nodeBytes, h.volumeOn_nodeSize.2, h.volumeOn_blockSize.1, forkByte,
      show (4096 : UInt32).toNat = 4096 from rfl, hblock, hrem, hp, Option.map_some,
      Option.getD_some]

theorem catalogRange_volumeOn : catalogRange (volumeOn disk)
    = ((volumeOn disk).firstLeafNode, (volumeOn disk).lastLeafNode) := by
  have hfirst := h.first_pos
  have hle := h.first_le
  have hlast := h.last_lt
  have hzero : ∀ x : UInt32, 0 < x.toNat → x ≠ 0 := fun x hx hxz ↦ by
    rw [hxz, UInt32.toNat_zero] at hx
    omega
  have hgood : ¬((volumeOn disk).firstLeafNode = 0 ∨ (volumeOn disk).lastLeafNode = 0 ∨
      (volumeOn disk).totalCatalogNodes ≤ (volumeOn disk).firstLeafNode ∨
      (volumeOn disk).totalCatalogNodes ≤ (volumeOn disk).lastLeafNode ∨
      (volumeOn disk).lastLeafNode < (volumeOn disk).firstLeafNode) := by
    rw [UInt32.le_iff_toNat_le, UInt32.le_iff_toNat_le, UInt32.lt_iff_toNat_lt]
    rintro (h0 | h0 | h0 | h0 | h0)
    · exact hzero _ hfirst h0
    · exact hzero _ (by omega) h0
    all_goals omega
  rw [catalogRange, if_neg (hzero _ (by omega)), if_neg hgood]

theorem geometry : CatalogGeometry (volumeOn disk) := by
  have hlast := h.last_lt
  have htotal := h.total_le
  have hsize := h.size
  have hns : (volumeOn disk).nodeSize.toNat = 4096 := by rw [h.volumeOn_nodeSize.2]; rfl
  have hbs : (volumeOn disk).bs.toNat = 4096 := by rw [h.volumeOn_blockSize.1]; rfl
  have hrange : (catalogRange (volumeOn disk)).2 = (volumeOn disk).lastLeafNode := by
    rw [h.catalogRange_volumeOn]
  refine ⟨(HfsVolume.bs_of_blockSize (Or.inl h.blockSize)).1, by omega, by omega, ?_, ?_,
    fun node _ ↦ ?_, fun node hnode p hp ↦ ?_⟩
  · rw [hrange, hns]
    exact (Nat.mul_le_mul_right 4096 hlast).trans hsize
  · rw [hrange, hns]
    exact Nat.mul_le_mul_right 4096 (Nat.le_trans hlast htotal)
  · rw [InOneBlock, hns, hbs, Nat.mul_mod_left]
  · rw [hrange] at hnode
    rw [hns, hbs, Nat.mul_div_cancel _ (by omega)] at hp
    obtain ⟨p', hp', -, hlt⟩ := h.block node (by omega)
    obtain rfl : p = p' := Option.some_inj.mp (hp.symm.trans hp')
    rw [h.volumeOn_blockSize.2, show (8 : UInt32).toNat = 8 from rfl]
    omega

theorem nodeReadable_volumeOn {node : ℕ} (hnode : node ≤ (volumeOn disk).lastLeafNode.toNat) :
    nodeReadable disk (volumeOn disk) node = true := by
  have hlast := h.last_lt
  obtain ⟨p, hp, -, -⟩ := h.block node (by omega)
  rw [nodeReadable_iff, h.volumeOn_nodeSize.2, h.volumeOn_blockSize.1,
    show (4096 : UInt32).toNat = 4096 from rfl, Nat.mul_div_cancel _ (by omega)]
  exact ⟨p, hp, h.reads _ _⟩

theorem slotInside {pos : ℕ × ℕ} (hpos : pos ∈ scanned disk (volumeOn disk)) (q : ScanQuery) :
    SlotInside (nodeBytes disk (volumeOn disk) pos.1) (volumeOn disk).nodeSize.toNat
      (offsetAt disk (volumeOn disk) pos) q := by
  have hns : (volumeOn disk).nodeSize.toNat = 4096 := by rw [h.volumeOn_nodeSize.2]; rfl
  obtain ⟨hfirst, hlast, hi⟩ := mem_scanned hpos
  rw [h.catalogRange_volumeOn] at hfirst hlast
  rw [hns] at hi
  obtain ⟨hname, hdata⟩ := h.slots pos.1 hfirst hlast pos.2 hi
  rw [offsetAt, hns]
  exact fun _ _ ↦ ⟨hname, fun _ ↦ by omega, fun _ ↦ hdata⟩

/-- **The node loop**, to the kernel. -/
theorem findRootNodes_hit (name : List UInt8) {fuel : ℕ} {node : UInt32} (gNode : ℕ → UInt8)
    (hfirst : (volumeOn disk).firstLeafNode.toNat ≤ node.toNat)
    (hfuel : node.toNat + fuel = (volumeOn disk).lastLeafNode.toNat + 1) :
    (findRootNodes disk (volumeOn disk).globals name (volumeOn disk).lastLeafNode fuel node
        gNode).1.map HfsFile.hit
      = (scannedFrom disk (volumeOn disk) node.toNat fuel).findSome?
          (hitOf disk (volumeOn disk) (fileQuery 2 name)) := by
  have hlast := h.last_lt
  have htotal := h.total_le
  have hsize : (volumeOn disk).nodeSize.toNat = 4096 := by rw [h.volumeOn_nodeSize.2]; rfl
  have hns : (volumeOn disk).globals.nodeSize = 4096 := by
    rw [HfsVolume.globals, h.volumeOn_nodeSize.1]
    rfl
  induction fuel generalizing node gNode with
  | zero => rfl
  | succ fuel ih =>
    have hle : node.toNat ≤ (volumeOn disk).lastLeafNode.toNat := by omega
    have hgo : ¬(volumeOn disk).lastLeafNode < node := by
      rw [UInt32.lt_iff_toNat_lt]
      omega
    have hnext : (node + 1).toNat = node.toNat + 1 := by
      rw [UInt32.toNat_add, show (1 : UInt32).toNat = 1 from rfl, Nat.mod_eq_of_lt (by omega)]
    obtain ⟨b, hread, hb⟩ := h.hfsReadCatalogNode_eq (by omega : node.toNat < _) gNode
    have hih := ih b (by omega : _ ≤ (node + 1).toNat) (by omega)
    rw [hnext] at hih
    rw [findRootNodes, if_neg hgo, hread, scannedFrom, List.range'_succ, List.takeWhile_cons,
      if_pos (h.nodeReadable_volumeOn hle), List.flatMap_cons, List.findSome?_append,
      List.findSome?_map]
    dsimp only [Function.comp_def, hitOf, offsetAt]
    rw [hsize, hb 8 (by omega), be16_congr fun k _ hk ↦ hb k (by omega), hns]
    rw [scannedFrom, hsize] at hih
    have hslots := h.slots node.toNat hfirst hle
    generalize nodeBytes disk (volumeOn disk) node.toNat = nb at hb hslots ⊢
    have hfit : (4096 : UInt32) < 2 * ((be16 nb 10).toUInt32 + 1) ↔
        ¬2 * (numRecords nb + 1) ≤ 4096 := by
      have hnum : numRecords nb < 65536 := UInt16.toNat_lt _
      rw [two_mul_numRecords, UInt32.lt_iff_toNat_lt, toNat_ofNat_lt (by omega), not_le]
      rfl
    by_cases hkind : nb 8 = 255
    · rw [if_neg (not_not.mpr hkind)]
      by_cases hskip : be16 nb 10 = 0 ∨ (4096 : UInt32) < 2 * ((be16 nb 10).toUInt32 + 1)
      · have hnone : scannedSlots nb 4096 = [] := by
          rw [scannedSlots, ite_eq_right_iff]
          rintro ⟨-, htable⟩
          have hzero := hskip.resolve_right (mt hfit.mp (not_not.mpr htable))
          rw [numRecords, hzero]
          rfl
        rw [if_pos hskip, hnone, hih, List.findSome?_nil, Option.none_or]
      · have htable : 2 * (numRecords nb + 1) ≤ 4096 :=
          not_not.mp (mt hfit.mpr (not_or.mp hskip).2)
        have hall : scannedSlots nb 4096
            = (List.range (numRecords nb)).map fun r ↦ numRecords nb - r := if_pos ⟨hkind, htable⟩
        have hrec := findRootRecords_hit hns hb htable (fun r ↦ List.mem_range.mp)
          (fun r hr ↦ hslots _ (hall ▸ List.mem_map_of_mem hr)) name
        rw [if_neg hskip, hall, List.findSome?_map, Function.comp_def, ← hrec, ← numRecords]
        cases findRootRecords (volumeOn disk).globals name b (be16 nb 10)
            (List.range (numRecords nb)) with
        | some file => rfl
        | none => exact hih
    · have hnone : scannedSlots nb 4096 = [] := if_neg fun hand ↦ hkind hand.1
      rw [if_pos hkind, hnone, List.findSome?_nil, Option.none_or, ← hih]
      by_cases hend : node = (volumeOn disk).lastLeafNode
      · obtain rfl : fuel = 0 := by
          rw [← hend] at hfuel
          omega
        rw [if_pos hend]
        rfl
      · rw [if_neg hend]

/-- `hfs_find_root_file` finds the first entry that `catalog_scan_child` takes. -/
theorem hfsFindRootFile_hit (name : List UInt8) (gNode : ℕ → UInt8) :
    (hfsFindRootFile disk (volumeOn disk).globals name gNode).1.map HfsFile.hit
      = (scanned disk (volumeOn disk)).findSome? (hitOf disk (volumeOn disk) (fileQuery 2 name)) := by
  have hpos := h.first_pos
  have hle := h.first_le
  have hzero : ∀ x : UInt32, 0 < x.toNat → x ≠ 0 := fun x hx hxz ↦ by
    rw [hxz, UInt32.toNat_zero] at hx
    omega
  have hgood : ¬((volumeOn disk).globals.firstLeaf = 0 ∨ (volumeOn disk).globals.lastLeaf = 0 ∨
      (volumeOn disk).globals.lastLeaf < (volumeOn disk).globals.firstLeaf) := by
    rintro (h0 | h0 | h0)
    · exact hzero _ hpos h0
    · exact hzero _ (hpos.trans_le hle) h0
    · exact absurd (UInt32.lt_iff_toNat_lt.mp h0) (not_lt.mpr hle)
  have hsub : ((volumeOn disk).lastLeafNode - (volumeOn disk).firstLeafNode).toNat
      = (volumeOn disk).lastLeafNode.toNat - (volumeOn disk).firstLeafNode.toNat :=
    UInt32.toNat_sub_of_le _ _ (UInt32.le_iff_toNat_le.mpr hle)
  rw [hfsFindRootFile, if_neg hgood, scanned, h.catalogRange_volumeOn]
  dsimp only [HfsVolume.globals]
  rw [hsub]
  exact h.findRootNodes_hit name gNode le_rfl (by omega)

end ProbedVolume

/-- **Booter and kernel find the same file.** On a volume that both are meant for, both mount it, and
for every name `catalog_scan_child` in the root folder and `hfs_find_root_file` succeed or fail
together, and report the same logical size and the same extents. -/
theorem booter_and_kernel_agree {disk : Disk} (h : ProbedVolume disk) (secbuf : UInt32) (m : Mem)
    (gSector gBlock : ℕ → UInt8) :
    ∃ hfs g, (hfsplusMount disk secbuf m).1 = some hfs ∧
      hfsProbeRoot disk gSector gBlock = some g ∧
      ∀ (name : List UInt8) (recType : UInt16) (m' : Mem) (gNode : ℕ → UInt8),
        (catalogScanChild disk hfs secbuf (fileQuery 2 name) recType m').1.2
          = (hfsFindRootFile disk g name gNode).1.map
              fun file ↦ .file ⟨file.logicalSize, file.extents⟩ := by
  refine ⟨volumeOn disk, (volumeOn disk).globals, h.hfsplusMount_volumeOn secbuf m,
    h.hfsProbeRoot_volumeOn gSector gBlock, fun name recType m' gNode ↦ ?_⟩
  rw [h.geometry.catalogScanChild_hit fun pos hpos ↦ h.slotInside hpos _]
  exact (h.hfsFindRootFile_hit name gNode).symm

/-! ### A volume for both -/

/-- A volume with a catalog of three nodes from block 10 on, the second of them a leaf with the
files `a` and `b`: its bytes, where they are not zero. -/
def probedBytes : List (ℕ × UInt8) :=
  [(1024, 72), (1025, 43), (1066, 16), (1302, 48), (1315, 10), (1319, 3),
    (40987, 1), (40991, 1), (40992, 16), (40999, 3)] ++
  ([(8, 255), (11, 2),
    (15, 8), (19, 2), (21, 1), (23, 97), (25, 2), (119, 1), (131, 7), (135, 1),
    (273, 8), (277, 2), (279, 1), (281, 98), (283, 2), (377, 2), (389, 9), (393, 1),
    (4090, 2), (4091, 18), (4092, 1), (4093, 16), (4095, 14)].map fun x ↦ (45056 + x.1, x.2))

def probedDisk : Disk where
  bytes x := (probedBytes.lookup x).getD 0
  ok _ _ := true

theorem probedVolume_probedDisk : ProbedVolume probedDisk where
  reads _ _ := rfl
  sig := by decide
  blockSize := by decide
  nodeSize := by decide
  extent := by decide
  first_pos := by decide
  first_le := by decide
  last_lt := by decide
  total_le := by decide
  size := by decide
  block node hnode := by
    have htotal : (volumeOn probedDisk).totalCatalogNodes.toNat = 3 := by decide
    rw [htotal] at hnode
    refine ⟨10 + node, ?_, by omega, by omega⟩
    interval_cases node <;> decide
  slots node hfirst hlast := by
    have hone : (volumeOn probedDisk).firstLeafNode.toNat = 1 ∧
        (volumeOn probedDisk).lastLeafNode.toNat = 1 := by decide
    obtain rfl : node = 1 := by omega
    have hslots : scannedSlots (nodeBytes probedDisk (volumeOn probedDisk) 1) 4096 = [2, 1] := by
      decide
    rw [hslots, List.forall_mem_cons, List.forall_mem_singleton]
    exact ⟨⟨by decide, by decide⟩, by decide, by decide⟩

/-- Both find `b`, of two bytes. -/
theorem booter_and_kernel_agree_b :
    ∃ hfs g, (hfsplusMount probedDisk 2149580800 fun _ ↦ 0).1 = some hfs ∧
      hfsProbeRoot probedDisk (fun _ ↦ 0) (fun _ ↦ 0) = some g ∧
      (hfsFindRootFile probedDisk g [98] fun _ ↦ 0).1.map HfsFile.logicalSize = some 2 ∧
      (catalogScanChild probedDisk hfs 2149580800 (fileQuery 2 [98]) 0 fun _ ↦ 0).1.2
        = (hfsFindRootFile probedDisk g [98] fun _ ↦ 0).1.map
            fun file ↦ .file ⟨file.logicalSize, file.extents⟩ := by
  obtain ⟨hfs, g, hbooter, hkernel, hagree⟩ := booter_and_kernel_agree probedVolume_probedDisk
    2149580800 (fun _ ↦ 0) (fun _ ↦ 0) (fun _ ↦ 0)
  refine ⟨hfs, g, hbooter, hkernel, ?_, hagree [98] 0 _ _⟩
  obtain rfl : (volumeOn probedDisk).globals = g :=
    Option.some_inj.mp ((probedVolume_probedDisk.hfsProbeRoot_volumeOn _ _).symm.trans hkernel)
  decide

end CaribeOS
