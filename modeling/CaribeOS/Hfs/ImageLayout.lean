import CaribeOS.Foundation.Ownership
import CaribeOS.Hfs.ImageContents
import CaribeOS.Hfs.LeafRecords

/-!
# Images that are in order

The blocks of an image belong to forks: five that the volume header describes, and a data and a
resource fork of each file record (`ForkId`). In an image that is in order (`Sound`), no block belongs
to two of them or to a fork and the volume header, all of these are marked in the bitmap, and the
leaves of the catalog hold records that do not overlap.

`Sound.mount_of_contents` says when an image can be mounted again after a change, with what result.
-/

namespace CaribeOS.HfsScript

open FileScript Extents Ownership

/-! ## Forks and their blocks -/

/-- The forks of a volume. Files are given by the node and the index of their record. -/
inductive ForkId where
  | system (i : Fin 5)
  | data (pos : ℕ × ℕ)
  | resource (pos : ℕ × ℕ)
deriving DecidableEq

section Contents

variable (hfs : HFSPlusImage) (c : Contents)

/-- The offset of a record in its node. -/
def Contents.offset (pos : ℕ × ℕ) : ℕ := recordOffset (c.node pos.1) hfs.nodeSize pos.2

/-- The offset of the data of a record in its node. -/
def Contents.dataOffset (pos : ℕ × ℕ) : ℕ := recordData (c.node pos.1) (c.offset hfs pos)

/-- There is a file record at `pos`. -/
structure Contents.IsFile (pos : ℕ × ℕ) : Prop where
  node_lt : pos.1 < hfs.totalNodes
  leaf : c.node pos.1 8 = 255
  index_lt : pos.2 < numRecords (c.node pos.1)
  file : recordType (c.node pos.1) (c.offset hfs pos) = 2

/-- The forks that there are. -/
def Contents.HasFork : ForkId → Prop
  | .system _ => True
  | .data pos => c.IsFile hfs pos
  | .resource pos => c.IsFile hfs pos

/-- The blocks of a fork. -/
def Contents.blocksOf : ForkId → List ℕ
  | .system i => blocks (extentsAt c.header (112 + 80 * i + 16))
  | .data pos => blocks (extentsAt (c.node pos.1) (c.dataOffset hfs pos + 88 + 16))
  | .resource pos => blocks (extentsAt (c.node pos.1) (c.dataOffset hfs pos + 168 + 16))

/-- The block is marked as used. -/
def Contents.Marked (b : ℕ) : Prop := Bitmap.getBit c.bitmap b = true
  deriving Decidable

/-- The blocks of the forks are shared out and marked. -/
def Contents.BlocksOwned : Prop :=
  Owned hfs.totalBlocks (HeaderBlock hfs.blockSize) (c.HasFork hfs) (c.blocksOf hfs) c.Marked

/-- The leaves of the catalog are in order. -/
def Contents.LeavesOrdered : Prop :=
  ∀ n < hfs.totalNodes, c.node n 8 = 255 → LeafRecords (c.node n) hfs.nodeSize

end Contents

/-- **An image in order**, mounted. -/
structure Sound (img : Buf) (hfs : HFSPlusImage) : Prop where
  mounted : mount img = .ok hfs
  header : 1536 ≤ img.size
  size : hfs.totalBlocks * hfs.blockSize ≤ img.size
  nodeSize_even : 2 ∣ hfs.nodeSize
  leaves : hfs.lastLeaf < hfs.totalNodes
  catalog_covers : hfs.totalNodes * hfs.nodeSize ≤ (catalogBlocks hfs).length * hfs.blockSize
  bitmap_covers : hfs.allocation.size ≤ (bitmapBlocks hfs).length * hfs.blockSize
  leaf : (contents hfs img).LeavesOrdered hfs
  owned : (contents hfs img).BlocksOwned hfs

variable {hfs : HFSPlusImage} {i : ForkId} {img' : Buf} {pos : ℕ × ℕ} {b : ℕ}

theorem Contents.hasFork_of_freeBlocks {c : Contents} {f : ℕ}
    (h : c.HasFork { hfs with freeBlocks := f } i) : c.HasFork hfs i := by
  cases i with
  | system i => trivial
  | data pos => exact ⟨h.node_lt, h.leaf, h.index_lt, h.file⟩
  | resource pos => exact ⟨h.node_lt, h.leaf, h.index_lt, h.file⟩

/-- The fields of the volume header that the scripts do not write are kept. -/
def HeaderKept (h h' : ℕ → UInt8) : Prop :=
  ∀ k < 512, ¬(32 ≤ k ∧ k < 36) → ¬(48 ≤ k ∧ k < 52) → ¬(60 ≤ k ∧ k < 64) → h' k = h k

theorem forkAt_congr {b b' : ℕ → UInt8} {o : ℕ} (h : ∀ k, o ≤ k → k < o + 80 → b k = b' k) :
    forkAt b o = forkAt b' o := by
  rw [forkAt, forkAt, be64_congr fun k hle hlt ↦ h k hle (by omega),
    extentsAt_congr fun k hle hlt ↦ h k (by omega) (by omega)]

theorem blocks_forkAt (b : ℕ → UInt8) (o : ℕ) :
    blocks (forkAt b o).extents = blocks (extentsAt b (o + 16)) := blocks_filter _

theorem blocksOf_system {img : Buf} (i : Fin 5) :
    (contents hfs img).blocksOf hfs (.system i)
      = blocks (extentsAt (HfsScript.header img) (112 + 80 * i + 16)) := by
  rw [Contents.blocksOf, contents]
  rw [extentsAt_congr fun k _ hlt ↦ overlay_of_lt (by omega)]

theorem volume_leaves (h t : ℕ → UInt8) :
    1 ≤ (volume h t).firstLeaf ∧ (volume h t).firstLeaf ≤ (volume h t).lastLeaf := by
  rw [volume]
  dsimp only
  split_ifs with hno
  · exact ⟨le_rfl, le_max_left _ _⟩
  · simp only [decide_eq_true_eq, not_or] at hno
    omega

namespace Sound

variable {img : Buf} {hfs : HFSPlusImage} (s : Sound img hfs)
include s

theorem exists_volume : ∃ t, hfs = volume (HfsScript.header img) t :=
  (of_mount_eq_ok s.header s.mounted).2.2.2

theorem blockSize_pos : 0 < hfs.blockSize := by
  obtain ⟨-, hbs, -, t, rfl⟩ := of_mount_eq_ok s.header s.mounted
  exact hbs

theorem bitmapBlocks_eq : bitmapBlocks hfs = (contents hfs img).blocksOf hfs (.system 0) := by
  obtain ⟨t, rfl⟩ := s.exists_volume
  rw [blocksOf_system, bitmapBlocks]
  exact blocks_forkAt _ 112

theorem catalogBlocks_eq : catalogBlocks hfs = (contents hfs img).blocksOf hfs (.system 2) := by
  obtain ⟨t, rfl⟩ := s.exists_volume
  rw [blocksOf_system, catalogBlocks]
  exact blocks_forkAt _ 272

/-- The header, the bitmap and the catalog have their own places. -/
theorem geometry : Geometry hfs img.size where
  blockSize_pos := s.blockSize_pos
  header := s.header
  inside := s.size
  bitmap_nodup := s.bitmapBlocks_eq ▸ s.owned.nodup _ trivial
  bitmap_lt b hb := s.owned.lt (.system 0) trivial b (s.bitmapBlocks_eq ▸ hb)
  bitmap_header b hb := s.owned.not_reserved (.system 0) trivial b (s.bitmapBlocks_eq ▸ hb)
  bitmap_catalog b hb := by
    rw [s.catalogBlocks_eq]
    exact s.owned.disjoint (.system 0) (.system 2) trivial trivial (by decide) b
      (s.bitmapBlocks_eq ▸ hb)
  bitmap_covers := s.bitmap_covers
  catalog_nodup := s.catalogBlocks_eq ▸ s.owned.nodup _ trivial
  catalog_lt b hb := s.owned.lt (.system 2) trivial b (s.catalogBlocks_eq ▸ hb)
  catalog_header b hb := s.owned.not_reserved (.system 2) trivial b (s.catalogBlocks_eq ▸ hb)
  catalog_covers := s.catalog_covers

theorem blockSize_eq : hfs.blockSize = (CaribeOS.be32 (HfsScript.header img) 40).toNat := by
  obtain ⟨t, rfl⟩ := s.exists_volume
  rfl

theorem catalogBlocks_header :
    catalogBlocks hfs = blocks (forkAt (HfsScript.header img) 272).extents := by
  obtain ⟨t, rfl⟩ := s.exists_volume
  rfl

theorem catalog_inside : ∀ a, a / hfs.blockSize ∈ catalogBlocks hfs → a < img.size :=
  fun _ ha ↦ s.geometry.lt_size (s.geometry.catalog_lt _ ha)

theorem eq_volume :
    hfs = volume (HfsScript.header img) (bytesOf hfs.blockSize (catalogBlocks hfs) img) := by
  obtain ⟨hsig, hbs, hcov, -⟩ := of_mount_eq_ok s.header s.mounted
  have hin := s.catalog_inside
  rw [s.catalogBlocks_header, s.blockSize_eq] at hin ⊢
  exact (Except.ok.inj ((mount_eq s.header hsig hbs hcov hin).symm.trans s.mounted)).symm

theorem firstLeaf_pos : 1 ≤ hfs.firstLeaf := by
  obtain ⟨t, rfl⟩ := s.exists_volume
  exact (volume_leaves _ _).1

theorem firstLeaf_le : hfs.firstLeaf ≤ hfs.lastLeaf := by
  obtain ⟨t, rfl⟩ := s.exists_volume
  exact (volume_leaves _ _).2

theorem freeBlocks_eq : hfs.freeBlocks = (CaribeOS.be32 (contents hfs img).header 48).toNat := by
  obtain ⟨t, rfl⟩ := s.exists_volume
  rfl

/-- **Mounting again** after a change: only the number of free blocks can be another one. -/
theorem mount_of_contents (hsize : img'.size = img.size)
    (hheader : HeaderKept (contents hfs img).header (contents hfs img').header)
    (htree : (contents hfs img').tree = (contents hfs img).tree) :
    mount img' = .ok { hfs with
      freeBlocks := (CaribeOS.be32 (contents hfs img').header 48).toNat } := by
  obtain ⟨hsig, -, hcov, -⟩ := of_mount_eq_ok s.header s.mounted
  have hblock := s.blockSize_eq
  have hcat := s.catalogBlocks_header
  rw [← hblock, ← hcat] at hcov
  -- the raw header is kept where the contents are
  have hkept : HeaderKept (HfsScript.header img) (HfsScript.header img') := by
    intro k hk hcount hfree hid
    have := hheader k hk hcount hfree hid
    rw [contents, contents] at this
    dsimp only at this
    rwa [overlay_of_lt hk, overlay_of_lt hk] at this
  have hblock' : (CaribeOS.be32 (HfsScript.header img') 40).toNat = hfs.blockSize := by
    rw [hblock, be32_congr fun k hle hlt ↦ hkept k (by omega) (by omega) (by omega) (by omega)]
  have hcat' : forkAt (HfsScript.header img') 272 = forkAt (HfsScript.header img) 272 :=
    forkAt_congr fun k hle hlt ↦ hkept k (by omega) (by omega) (by omega) (by omega)
  have hsig' : SignatureOk (HfsScript.header img') := by
    rw [SignatureOk, be16_congr fun k hle hlt ↦ hkept k (by omega) (by omega) (by omega) (by omega)]
    exact hsig
  have hfields : volume (HfsScript.header img') = fun t ↦ { volume (HfsScript.header img) t with
      freeBlocks := (CaribeOS.be32 (HfsScript.header img') 48).toNat } := by
    funext t
    rw [volume, hcat', be32_congr (o := 40) fun k hle hlt ↦ hkept k (by omega) (by omega) (by omega)
      (by omega), be32_congr (o := 44) fun k hle hlt ↦ hkept k (by omega) (by omega) (by omega)
      (by omega), forkAt_congr (o := 112) fun k hle hlt ↦ hkept k (by omega) (by omega) (by omega)
      (by omega)]
    rfl
  have hfree : CaribeOS.be32 (contents hfs img').header 48
      = CaribeOS.be32 (HfsScript.header img') 48 := by
    exact be32_congr fun k _ hlt ↦ overlay_of_lt (by omega)
  have hbegin : ∀ k, 24 ≤ k → k < 40 → bytesOf hfs.blockSize (catalogBlocks hfs) img' k
      = bytesOf hfs.blockSize (catalogBlocks hfs) img k := by
    intro k _ hlt
    have := congrFun htree k
    rw [contents, contents] at this
    dsimp only at this
    rwa [overlay_of_lt hlt, overlay_of_lt hlt] at this
  rw [mount_eq (hsize ▸ s.header) hsig' (hblock' ▸ s.blockSize_pos)
    (by rw [hblock', hcat', ← hcat]; exact hcov)
    (by rw [hblock', hcat', ← hcat, hsize]; exact s.catalog_inside), hblock', hcat', ← hcat, hfields,
    hfree]
  dsimp only
  rw [volume_congr hbegin, ← s.eq_volume]

theorem of_contents (hsize : img'.size = img.size)
    (hheader : HeaderKept (contents hfs img).header (contents hfs img').header)
    (htree : (contents hfs img').tree = (contents hfs img).tree)
    (hleaf : (contents hfs img').LeavesOrdered hfs) (howned : (contents hfs img').BlocksOwned hfs) :
    Sound img' { hfs with freeBlocks := (CaribeOS.be32 (contents hfs img').header 48).toNat } where
  mounted := s.mount_of_contents hsize hheader htree
  header := hsize ▸ s.header
  size := hsize ▸ s.size
  nodeSize_even := s.nodeSize_even
  leaves := s.leaves
  catalog_covers := s.catalog_covers
  bitmap_covers := s.bitmap_covers
  leaf := hleaf
  owned := howned.congr (fun _ ↦ Contents.hasFork_of_freeBlocks)
    (fun i _ ↦ by cases i <;> rfl) fun _ h ↦ h

end Sound

/-! ## An image with three files -/

/-- The bytes of a volume of 16 blocks that are not zero: the volume header, the bitmap, the header
node and the leaf of the catalog. The files `a`, `b` and `c` are in the root folder; the first two
have a block each and `c` is empty. -/
def threeFilesBytes : List (ℕ × UInt8) :=
  [(1024, 72), (1025, 43), (1059, 3), (1066, 16), (1071, 16), (1075, 11), (1087, 20),
    (1143, 2), (1155, 1), (1159, 1), (1302, 16), (1315, 10), (1319, 1),
    (4096, 193), (4097, 96),
    (40987, 1), (40991, 1), (40992, 8), (40999, 2),
    (43016, 255), (43019, 3),
    (43023, 8), (43027, 2), (43029, 1), (43031, 97), (43033, 2), (43127, 1), (43139, 7), (43143, 1),
    (43281, 8), (43285, 2), (43287, 1), (43289, 98), (43291, 2), (43385, 2), (43397, 9), (43401, 1),
    (43539, 8), (43543, 2), (43545, 1), (43547, 99), (43549, 2),
    (45048, 3), (45049, 20), (45050, 2), (45051, 18), (45052, 1), (45053, 16), (45055, 14)]

def threeFiles : Buf where
  size := 65536
  byte x := (threeFilesBytes.lookup x).getD 0

def threeFilesVolume : HFSPlusImage where
  blockSize := 4096
  totalBlocks := 16
  freeBlocks := 11
  allocation := ⟨2, [(1, 1)]⟩
  catalog := ⟨4096, [(10, 1)]⟩
  nodeSize := 2048
  firstLeaf := 1
  lastLeaf := 1
  totalNodes := 2

theorem mount_threeFiles : mount threeFiles = .ok threeFilesVolume := by
  rw [mount_eq (by decide) (by decide) (by decide) (by decide)]
  · rfl
  · intro a ha
    have hblocks : blocks (forkAt (header threeFiles) 272).extents = [10] := by decide
    have hbs : (CaribeOS.be32 (header threeFiles) 40).toNat = 4096 := by decide
    rw [hblocks, hbs, List.mem_singleton] at ha
    change a < 65536
    omega

/-- The contents of that image. -/
def threeFilesContents : Contents := contents threeFilesVolume threeFiles

theorem numRecords_threeFiles : numRecords (threeFilesContents.node 1) = 3 := by decide

theorem offset_threeFiles :
    ∀ i ≤ 3, recordOffset (threeFilesContents.node 1) 2048 i = 14 + 258 * i := by
  decide

theorem recordEnd_threeFiles :
    ∀ i < 3, recordEnd (threeFilesContents.node 1) (14 + 258 * i) = 14 + 258 * (i + 1) := by
  decide

theorem leafRecords_threeFiles : LeafRecords (threeFilesContents.node 1) 2048 := by
  have hfree : freeOffset (threeFilesContents.node 1) 2048 = 788 := by
    rw [freeOffset, numRecords_threeFiles, offset_threeFiles 3 le_rfl]
  constructor <;> simp only [hfree, numRecords_threeFiles]
  · decide
  · decide
  · decide
  · decide
  · have hzero : ∀ k < 1252, threeFilesContents.node 1 (788 + k) = 0 := by decide +kernel
    intro k hle hlt
    rw [← Nat.add_sub_cancel' hle]
    exact hzero _ (by omega)
  · intro i hi
    rw [offset_threeFiles i hi.le]
    omega
  · decide
  · intro i hi
    rw [offset_threeFiles i hi.le, recordEnd_threeFiles i hi]
    omega
  · intro i hi j hj hne
    rw [offset_threeFiles i hi.le, offset_threeFiles j hj.le, recordEnd_threeFiles i hi,
      recordEnd_threeFiles j hj]
    omega

/-- The blocks of the forks. -/
def threeFilesBlocks (i : ForkId) : List ℕ :=
  if i = .system 0 then [1]
  else if i = .system 2 then [10]
  else if i = .data (1, 0) then [7]
  else if i = .data (1, 1) then [9]
  else []

theorem record_threeFiles (hn : pos.1 < threeFilesVolume.totalNodes)
    (hleaf : threeFilesContents.node pos.1 8 = 255)
    (hi : pos.2 < numRecords (threeFilesContents.node pos.1)) :
    pos = (1, 0) ∨ pos = (1, 1) ∨ pos = (1, 2) := by
  obtain ⟨n, i⟩ := pos
  change n < 2 at hn
  dsimp only at hleaf hi
  interval_cases n
  · exact absurd hleaf (by decide)
  · rw [numRecords_threeFiles] at hi
    interval_cases i
    · exact Or.inl rfl
    · exact Or.inr (Or.inl rfl)
    · exact Or.inr (Or.inr rfl)

theorem isFile_threeFiles (h : threeFilesContents.IsFile threeFilesVolume pos) :
    pos = (1, 0) ∨ pos = (1, 1) ∨ pos = (1, 2) := record_threeFiles h.node_lt h.leaf h.index_lt

theorem blocksOf_threeFiles (h : threeFilesContents.HasFork threeFilesVolume i) :
    threeFilesContents.blocksOf threeFilesVolume i = threeFilesBlocks i := by
  cases i with
  | system i => fin_cases i <;> decide
  | data pos => rcases isFile_threeFiles h with rfl | rfl | rfl <;> decide
  | resource pos => rcases isFile_threeFiles h with rfl | rfl | rfl <;> decide

/-- Each block has one owner. -/
theorem mem_threeFilesBlocks (h : b ∈ threeFilesBlocks i) :
    (b = 1 ∧ i = .system 0) ∨ (b = 10 ∧ i = .system 2) ∨ (b = 7 ∧ i = .data (1, 0)) ∨
      (b = 9 ∧ i = .data (1, 1)) := by
  rw [threeFilesBlocks] at h
  split_ifs at h with h0 h2 ha hb
  · exact Or.inl ⟨List.mem_singleton.mp h, h0⟩
  · exact Or.inr (Or.inl ⟨List.mem_singleton.mp h, h2⟩)
  · exact Or.inr (Or.inr (Or.inl ⟨List.mem_singleton.mp h, ha⟩))
  · exact Or.inr (Or.inr (Or.inr ⟨List.mem_singleton.mp h, hb⟩))
  · exact absurd h List.not_mem_nil

theorem headerBlock_threeFiles (h : HeaderBlock 4096 b) : b = 0 := by
  have hlt := h.1
  omega

theorem blocksOwned_threeFiles : threeFilesContents.BlocksOwned threeFilesVolume where
  nodup i hi := by
    rw [blocksOf_threeFiles hi, threeFilesBlocks]
    split_ifs <;> decide
  disjoint i j hi hj hne b hb hb' := by
    rw [blocksOf_threeFiles hi] at hb
    rw [blocksOf_threeFiles hj] at hb'
    rcases mem_threeFilesBlocks hb with ⟨rfl, rfl⟩ | ⟨rfl, rfl⟩ | ⟨rfl, rfl⟩ | ⟨rfl, rfl⟩ <;>
      rcases mem_threeFilesBlocks hb' with ⟨h, rfl⟩ | ⟨h, rfl⟩ | ⟨h, rfl⟩ | ⟨h, rfl⟩ <;>
        first | exact hne rfl | exact absurd h (by decide)
  lt i hi b hb := by
    rw [blocksOf_threeFiles hi] at hb
    rcases mem_threeFilesBlocks hb with ⟨rfl, -⟩ | ⟨rfl, -⟩ | ⟨rfl, -⟩ | ⟨rfl, -⟩ <;> decide
  not_reserved i hi b hb hres := by
    rw [blocksOf_threeFiles hi] at hb
    obtain rfl := headerBlock_threeFiles hres
    rcases mem_threeFilesBlocks hb with ⟨h, -⟩ | ⟨h, -⟩ | ⟨h, -⟩ | ⟨h, -⟩ <;>
      exact absurd h (by decide)
  marked i hi b hb := by
    rw [blocksOf_threeFiles hi] at hb
    rcases mem_threeFilesBlocks hb with ⟨rfl, -⟩ | ⟨rfl, -⟩ | ⟨rfl, -⟩ | ⟨rfl, -⟩ <;>
      decide
  reserved_lt b hb := by
    rw [headerBlock_threeFiles hb]
    decide
  reserved_marked b hb := by
    rw [headerBlock_threeFiles hb]
    decide

theorem sound_threeFiles : Sound threeFiles threeFilesVolume where
  mounted := mount_threeFiles
  header := by decide
  size := by decide
  nodeSize_even := by decide
  leaves := by decide
  catalog_covers := by decide
  bitmap_covers := by decide
  leaf n hn hleaf := by
    have hn : n < 2 := hn
    interval_cases n
    · exact absurd hleaf (by decide)
    · exact leafRecords_threeFiles
  owned := blocksOwned_threeFiles

end CaribeOS.HfsScript
