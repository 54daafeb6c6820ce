import CaribeOS.Hfs.ImageLayout

/-!
# What the scripts find

The scripts read nodes and the bitmap of an image in order as they are (`Sound.readNode`,
`Sound.readAllocationBitmap`). `find_file` goes through the same entries of the offset tables as the
booter does: that of the free space, then the records from the last one on, without the first. What it
finds in the end is a file record (`Sound.findFile_found`), and its path leads to it (`PathLeads`).
-/

namespace CaribeOS.HfsScript

open FileScript Extents

/-! ## Buffers that show something -/

/-- The buffer holds the first `n` of the bytes `b`. -/
structure Shows (buf : Buf) (n : ℕ) (b : ℕ → UInt8) : Prop where
  size : buf.size = n
  byte : ∀ k < n, buf.byte k = b k

namespace Shows

variable {buf : Buf} {n o v : ℕ} {b : ℕ → UInt8} (h : Shows buf n b) {off : ℤ}
include h

theorem be16_eq_ok_iff (hoff : off = o) :
    be16 buf off = .ok v ↔ o + 2 ≤ n ∧ v = (CaribeOS.be16 b o).toNat := by
  have hcongr : o + 2 ≤ n → CaribeOS.be16 buf.byte o = CaribeOS.be16 b o :=
    fun hle ↦ be16_congr fun k _ hlt ↦ h.byte k (by omega)
  constructor
  · intro hok
    obtain ⟨rfl, hle⟩ := of_be16_eq_ok hoff hok
    rw [h.size] at hle
    exact ⟨hle, by rw [hcongr hle]⟩
  · rintro ⟨hle, rfl⟩
    rw [be16_of_le hoff (h.size ▸ hle), hcongr hle]

theorem be32_eq_ok_iff (hoff : off = o) :
    be32 buf off = .ok v ↔ o + 4 ≤ n ∧ v = (CaribeOS.be32 b o).toNat := by
  have hcongr : o + 4 ≤ n → CaribeOS.be32 buf.byte o = CaribeOS.be32 b o :=
    fun hle ↦ be32_congr fun k _ hlt ↦ h.byte k (by omega)
  constructor
  · intro hok
    obtain ⟨rfl, hle⟩ := of_be32_eq_ok hoff hok
    rw [h.size] at hle
    exact ⟨hle, by rw [hcongr hle]⟩
  · rintro ⟨hle, rfl⟩
    rw [be32_of_le hoff (h.size ▸ hle), hcongr hle]

theorem forkFrom_eq (hoff : off = o) (hle : o + 80 ≤ n) : forkFrom buf off = .ok (forkAt b o) := by
  rw [HfsScript.forkFrom_eq hoff (h.size ▸ hle), forkAt_congr fun k _ hlt ↦ h.byte k (by omega)]

end Shows

/-! ## One record -/

/-- The name of a record, as the scripts compare it. -/
def scriptName (b : ℕ → UInt8) (o : ℕ) : List Char := (recordName b o).map fun u ↦ asciiChar u.toNat

variable {parent : ℕ} {target : List Char} {found : CatalogRec}

variable {o n : ℕ} {hfs : HFSPlusImage} {img : Buf} {path : List Char}

section Record

variable {node : Buf} {n : ℕ} {b : ℕ → UInt8} (h : Shows node n b)
include h

theorem Shows.asciiName_eq_ok {len : ℕ} {off : ℤ} (hoff : off = o) {name : List Char}
    (hok : asciiName node off len = .ok name) :
    (len = 0 ∨ o + 2 * len ≤ n) ∧
      name = (List.range len).map fun j ↦ asciiChar (CaribeOS.be16 b (o + 2 * j)).toNat := by
  have hchar : ∀ j < len, o + 2 * j + 2 ≤ n ∧ (be16 node (off + j * 2)).map asciiChar
      = .ok (asciiChar (CaribeOS.be16 b (o + 2 * j)).toNat) := by
    intro j hj
    obtain ⟨c, hc⟩ := exists_of_mapM_eq_ok hok j (List.mem_range.mpr hj)
    cases hread : be16 node (off + j * 2) with
    | error e => rw [hread] at hc; cases hc
    | ok v =>
      obtain ⟨hle, rfl⟩ := (h.be16_eq_ok_iff (o := o + 2 * j) (by rw [hoff]; push_cast; ring)).mp
        hread
      exact ⟨hle, rfl⟩
  constructor
  · rcases Nat.eq_zero_or_pos len with hzero | hpos
    · exact Or.inl hzero
    · have := (hchar (len - 1) (by omega)).1
      omega
  · rw [asciiName, mapM_eq_ok fun j hj ↦ (hchar j (List.mem_range.mp hj)).2] at hok
    exact (Except.ok.inj hok).symm

/-- What the record loop has found, if it has. -/
theorem Shows.scanRec_eq_ok {dataOff type : ℕ}
    (hok : scanRec node parent target o = .ok (some (dataOff, type))) :
    dataOff = recordData b o ∧ type = (recordType b o).toNat ∧ recordData b o + 2 ≤ n ∧
      (recordParent b o).toNat = parent ∧ scriptName b o = target := by
  obtain ⟨keyLen, hkey, hok⟩ := bind_eq_ok.mp hok
  obtain ⟨recParent, hparent, hok⟩ := bind_eq_ok.mp hok
  obtain ⟨nameLen, hlen, hok⟩ := bind_eq_ok.mp hok
  obtain ⟨name, hname, hok⟩ := bind_eq_ok.mp hok
  obtain ⟨-, rfl⟩ := (h.be16_eq_ok_iff rfl).mp hkey
  obtain ⟨-, rfl⟩ := (h.be32_eq_ok_iff (o := o + 2) (by push_cast; ring)).mp hparent
  obtain ⟨-, rfl⟩ := (h.be16_eq_ok_iff (o := o + 6) (by push_cast; ring)).mp hlen
  obtain ⟨-, rfl⟩ := h.asciiName_eq_ok (o := o + 8) (by push_cast; ring) hname
  split_ifs at hok with hmiss
  · cases hok
  · rw [not_or, not_not, not_not] at hmiss
    obtain ⟨rtype, htype, hok⟩ := bind_eq_ok.mp hok
    obtain ⟨hle, rfl⟩ := (h.be16_eq_ok_iff (o := recordData b o) rfl).mp htype
    obtain ⟨rfl, rfl⟩ := Prod.mk.inj (Option.some_inj.mp (Except.ok.inj hok))
    refine ⟨rfl, rfl, hle, hmiss.1, ?_⟩
    rw [← hmiss.2, scriptName, recordName, List.map_map]
    rfl

end Record

theorem exists_of_scanRecs_eq_ok {node : Buf} {index : ℤ} {recs : List ℕ} {found : ℕ × ℕ}
    (h : scanRecs node parent target index recs = .ok (some found)) :
    ∃ r ∈ recs, ∃ recOff, be16 node (index + r * 2) = .ok recOff ∧
      scanRec node parent target recOff = .ok (some found) := by
  induction recs with
  | nil => cases h
  | cons r recs ih =>
    obtain ⟨recOff, hoff, h⟩ := bind_eq_ok.mp h
    obtain ⟨result, hrec, h⟩ := bind_eq_ok.mp h
    cases result with
    | none =>
      obtain ⟨r', hr', hrest⟩ := ih h
      exact ⟨r', List.mem_cons_of_mem _ hr', hrest⟩
    | some found' =>
      obtain rfl := Option.some_inj.mp (Except.ok.inj h)
      exact ⟨r, List.mem_cons_self, recOff, hoff, hrec⟩

theorem exists_of_scanNodes_eq_ok {nodes : List ℕ}
    (h : scanNodes hfs img parent target nodes = .ok (some found)) :
    ∃ n ∈ nodes, found.nodeId = n ∧ found.nodeOff = n * hfs.nodeSize ∧
      readFork hfs.blockSize hfs.catalog img (n * hfs.nodeSize) hfs.nodeSize = .ok found.node ∧
      found.node.byte 8 = 255 ∧ ∃ records, be16 found.node 10 = .ok records ∧
        scanRecs found.node parent target (hfs.nodeSize - 2 * (records + 1)) (List.range records)
          = .ok (some (found.dataOff, found.recordType)) := by
  induction nodes with
  | nil => cases h
  | cons n nodes ih =>
    obtain ⟨node, hread, h⟩ := bind_eq_ok.mp h
    split_ifs at h with hshort hkind
    · obtain ⟨m, hm, hrest⟩ := ih h
      exact ⟨m, List.mem_cons_of_mem n hm, hrest⟩
    · obtain ⟨records, hnum, h⟩ := bind_eq_ok.mp h
      obtain ⟨result, hscan, h⟩ := bind_eq_ok.mp h
      cases result with
      | none =>
        obtain ⟨m, hm, hrest⟩ := ih h
        exact ⟨m, List.mem_cons_of_mem n hm, hrest⟩
      | some at' =>
        obtain rfl := Option.some_inj.mp (Except.ok.inj h)
        exact ⟨n, List.mem_cons_self, rfl, rfl, hread, not_not.mp hkind, records, hnum, hscan⟩

/-! ## Paths -/

section Paths

variable (hfs : HFSPlusImage) (c : Contents)

/-- A record that the scans come to: in a leaf of the range, and not the first. -/
structure Contents.Visited (pos : ℕ × ℕ) : Prop where
  first_le : hfs.firstLeaf ≤ pos.1
  le_last : pos.1 ≤ hfs.lastLeaf
  leaf : c.node pos.1 8 = 255
  index_pos : 0 < pos.2
  index_lt : pos.2 < numRecords (c.node pos.1)

/-- The record is in the folder `parent` and has the name `name`. -/
def Contents.KeyIs (parent : ℕ) (name : List Char) (pos : ℕ × ℕ) : Prop :=
  (recordParent (c.node pos.1) (c.offset hfs pos)).toNat = parent ∧
    scriptName (c.node pos.1) (c.offset hfs pos) = name

/-- The type of a record. -/
def Contents.typeOf (pos : ℕ × ℕ) : UInt16 := recordType (c.node pos.1) (c.offset hfs pos)

/-- The folder that a folder record is for. -/
def Contents.folderId (pos : ℕ × ℕ) : ℕ :=
  (CaribeOS.be32 (c.node pos.1) (c.dataOffset hfs pos + 8)).toNat

/-- The names lead from the folder `parent` to the file record at `pos`. -/
inductive Contents.PathLeads : ℕ → List (List Char) → ℕ × ℕ → Prop
  | file {parent : ℕ} {name : List Char} {pos : ℕ × ℕ} : c.Visited hfs pos →
    c.KeyIs hfs parent name pos → c.typeOf hfs pos = 2 → PathLeads parent [name] pos
  | folder {parent : ℕ} {name : List Char} {names : List (List Char)} {dir pos : ℕ × ℕ} :
    c.Visited hfs dir → c.KeyIs hfs parent name dir → c.typeOf hfs dir = 1 →
      PathLeads (c.folderId hfs dir) names pos → PathLeads parent (name :: names) pos

/-- What a scan has returned is the record at `pos`. -/
structure Contents.FoundAt (found : CatalogRec) (pos : ℕ × ℕ) : Prop where
  nodeId : found.nodeId = pos.1
  nodeOff : found.nodeOff = pos.1 * hfs.nodeSize
  shows : Shows found.node hfs.nodeSize (c.node pos.1)
  dataOff : found.dataOff = c.dataOffset hfs pos
  recordType : found.recordType = (c.typeOf hfs pos).toNat

end Paths

theorem Geometry.readNode (g : Geometry hfs img.size) (hn : n < hfs.totalNodes) :
    ∃ node, readFork hfs.blockSize hfs.catalog img (n * hfs.nodeSize) hfs.nodeSize = .ok node ∧
      Shows node hfs.nodeSize ((contents hfs img).node n) := by
  have hend : (n + 1) * hfs.nodeSize ≤ (catalogBlocks hfs).length * hfs.blockSize :=
    (Nat.mul_le_mul_right _ hn).trans g.catalog_covers
  rw [Nat.succ_mul] at hend
  obtain ⟨node, hread, hsize, hbyte⟩ := readFork_eq g.blockSize_pos
    hfs.catalog img (n * hfs.nodeSize) hfs.nodeSize fun k hk ↦ by
      obtain ⟨a, ha⟩ := exists_byteAt g.blockSize_pos
        (show n * hfs.nodeSize + k < (catalogBlocks hfs).length * hfs.blockSize by omega)
      exact ⟨a, g.lt_size (g.catalog_lt _ (div_mem_of_byteAt g.blockSize_pos ha)), ha⟩
  refine ⟨node, hread, hsize, fun k hk ↦ ?_⟩
  rw [hbyte k hk, contents]
  dsimp only
  rw [if_pos hn, overlay_of_lt hk]
  rfl

namespace Sound

variable {img : Buf} {hfs : HFSPlusImage} (s : Sound img hfs)
include s

theorem readNode (hn : n < hfs.totalNodes) :
    ∃ node, readFork hfs.blockSize hfs.catalog img (n * hfs.nodeSize) hfs.nodeSize = .ok node ∧
      Shows node hfs.nodeSize ((contents hfs img).node n) := s.geometry.readNode hn

theorem readAllocationBitmap (hne : hfs.allocation.size ≠ 0) :
    ∃ bitmap, HfsScript.readAllocationBitmap hfs img = .ok bitmap ∧
      Shows bitmap hfs.allocation.size (contents hfs img).bitmap := by
  have hend := s.bitmap_covers
  obtain ⟨bitmap, hread, hsize, hbyte⟩ := readFork_eq s.blockSize_pos
    hfs.allocation img 0 hfs.allocation.size fun k hk ↦ by
      obtain ⟨a, ha⟩ := exists_byteAt s.blockSize_pos
        (show 0 + k < (bitmapBlocks hfs).length * hfs.blockSize by omega)
      exact ⟨a, s.geometry.lt_size (s.geometry.bitmap_lt _ (div_mem_of_byteAt s.blockSize_pos ha)),
        ha⟩
  refine ⟨bitmap, by rw [HfsScript.readAllocationBitmap, if_neg hne, hread], hsize, fun k hk ↦ ?_⟩
  rw [hbyte k hk, Nat.zero_add, contents]
  dsimp only
  rw [overlay_of_lt hk]
  rfl

/-- **What a scan returns**, if its type is that of a folder or a file. -/
theorem scanChild_found (h : scanChild hfs img parent target = .ok (some found))
    (htype : found.recordType = 1 ∨ found.recordType = 2) :
    ∃ pos, (contents hfs img).FoundAt hfs found pos ∧ (contents hfs img).Visited hfs pos ∧
      (contents hfs img).KeyIs hfs parent target pos := by
  have hlast := s.leaves
  obtain ⟨n, hn, hid, hoff, hread, hkind, records, hnum, hscan⟩ := exists_of_scanNodes_eq_ok h
  rw [List.mem_range'_1] at hn
  obtain ⟨node, hread', hshows⟩ := s.readNode (by omega : n < hfs.totalNodes)
  obtain rfl : node = found.node := Except.ok.inj (hread'.symm.trans hread)
  generalize hb : (contents hfs img).node n = b at hshows
  have hsize := (hshows.be16_eq_ok_iff (show (10 : ℤ) = (10 : ℕ) from rfl)).mp hnum
  obtain ⟨hten, rfl⟩ := hsize
  have hkind' : b 8 = 255 := by rw [← hshows.byte 8 (by omega), hkind]
  have hleaf : LeafRecords b hfs.nodeSize := hb ▸ s.leaf n (by omega) (by rw [hb]; exact hkind')
  have htable := hleaf.table
  obtain ⟨r, hr, recOff, hentry, hrec⟩ := exists_of_scanRecs_eq_ok hscan
  rw [List.mem_range] at hr
  change r < numRecords b at hr
  have hpos : ((hfs.nodeSize : ℤ) - 2 * (((CaribeOS.be16 b 10).toNat : ℤ) + 1) + r * 2)
      = ((hfs.nodeSize - 2 * (numRecords b - r + 1) : ℕ) : ℤ) := by
    change ((hfs.nodeSize : ℤ) - 2 * ((numRecords b : ℤ) + 1) + r * 2) = _
    omega
  obtain ⟨-, rfl⟩ := (hshows.be16_eq_ok_iff hpos).mp hentry
  change scanRec found.node parent target (recordOffset b hfs.nodeSize (numRecords b - r)) = _
    at hrec
  obtain ⟨hdata, htype', hin, hparent, hname⟩ := hshows.scanRec_eq_ok hrec
  have hindex : r ≠ 0 := by
    -- the free space is neither a folder nor a file
    rintro rfl
    rw [Nat.sub_zero] at hin htype'
    have hfree := hleaf.leafLayout.recordType_free s.nodeSize_even hin
    rw [htype'] at htype
    rcases hfree with hzero | hlarge
    · rw [hzero] at htype
      exact absurd htype (by decide)
    · omega
  refine ⟨(n, numRecords b - r), ⟨hid, hoff, ?_, ?_, ?_⟩,
    ⟨hn.1, by dsimp only; omega, ?_, by dsimp only; omega, ?_⟩, ?_, ?_⟩
  · rw [hb]
    exact hshows
  · rw [Contents.dataOffset, Contents.offset, hb]
    exact hdata
  · rw [Contents.typeOf, Contents.offset, hb]
    exact htype'
  · rw [hb]
    exact hkind'
  · rw [hb]
    omega
  · rw [Contents.offset, hb]
    exact hparent
  · rw [Contents.offset, hb]
    exact hname

theorem findFileLoop_found {names : List (List Char)}
    (h : findFileLoop hfs img path parent names = .ok found) :
    ∃ pos, (contents hfs img).FoundAt hfs found pos ∧ (contents hfs img).Visited hfs pos ∧
      (contents hfs img).typeOf hfs pos = 2 ∧
      (contents hfs img).PathLeads hfs parent names pos := by
  induction names generalizing parent with
  | nil => cases h
  | cons name names ih =>
    obtain ⟨result, hscan, h⟩ := bind_eq_ok.mp h
    cases result with
    | none => cases h
    | some rec =>
      dsimp only at h
      split_ifs at h with hlast htype htype
      · -- the last name
        rw [not_not] at htype
        obtain rfl := Except.ok.inj h
        obtain ⟨pos, hat, hvisited, hkey⟩ := s.scanChild_found hscan (Or.inr htype)
        have hfile : (contents hfs img).typeOf hfs pos = 2 := by
          rw [← UInt16.toNat_inj, ← hat.recordType, htype]
          rfl
        rw [hlast]
        exact ⟨pos, hat, hvisited, hfile, .file hvisited hkey hfile⟩
      · rw [not_not] at htype
        obtain ⟨id, hid, h⟩ := bind_eq_ok.mp h
        obtain ⟨dir, hat, hvisited, hkey⟩ := s.scanChild_found hscan (Or.inl htype)
        have hfolder : (contents hfs img).typeOf hfs dir = 1 := by
          rw [← UInt16.toNat_inj, ← hat.recordType, htype]
          rfl
        rw [hat.dataOff] at hid
        obtain ⟨-, rfl⟩ := (hat.shows.be32_eq_ok_iff
          (o := (contents hfs img).dataOffset hfs dir + 8) (by push_cast; ring)).mp hid
        obtain ⟨pos, hat', hvisited', hfile, hleads⟩ := ih h
        exact ⟨pos, hat', hvisited', hfile, .folder hvisited hkey hfolder hleads⟩

/-- **What `find_file` returns.** -/
theorem findFile_found (h : findFile hfs img path = .ok found) :
    ∃ pos, (contents hfs img).FoundAt hfs found pos ∧ (contents hfs img).Visited hfs pos ∧
      (contents hfs img).typeOf hfs pos = 2 ∧
      (contents hfs img).PathLeads hfs 2 (path.parts '/') pos :=
  s.findFileLoop_found h

end Sound

end CaribeOS.HfsScript
