import CaribeOS.Hfs.Scan

/-!
# Looking up a file in the catalog

What the scan of `catalog_scan_child` finds in a catalog that is laid out as HFS+ wants it: records
inside their nodes and zeros in the free space. The entry of the free space is then never taken for
a record. `catalogScanChild_eq` says which records are looked at and in which order, and
`catalogLookup_iff` when the file that is asked for is the one that is found.
-/

namespace CaribeOS

open ByteMemory

/-! ## The entry of the free space -/

variable {o : ℕ} {parent : UInt32} {target name : List UInt8} {pos : ℕ × ℕ}

theorem be16_eq_zero {b : ℕ → UInt8} (h0 : b o = 0) (h1 : b (o + 1) = 0) : be16 b o = 0 := by
  rw [be16, h0, h1]
  rfl

section Free

variable {b : ℕ → UInt8} {n : ℕ}

/-- Read as a record, the free space has neither the type of a folder nor that of a file: its type
is zero, or an entry of the offset table. -/
theorem LeafLayout.recordType_free (hleaf : LeafLayout b n) (hn : 2 ∣ n)
    (hin : recordData b (recordOffset b n (numRecords b)) + 2 ≤ n) :
    recordType b (recordOffset b n (numRecords b)) = 0 ∨
      14 ≤ (recordType b (recordOffset b n (numRecords b))).toNat := by
  have hfree := hleaf.free_le
  have heven := hleaf.even
  generalize hf : recordOffset b n (numRecords b) = f at hin hfree heven ⊢
  -- an even offset in the table is an entry, and entries are at least 14
  have hentry : ∀ x, 2 ∣ x → n - 2 * (numRecords b + 1) ≤ x → x + 2 ≤ n →
      14 ≤ (be16 b x).toNat := by
    intro x hx hle hlt
    have hoff := hleaf.offset ((n - x) / 2 - 1) (by omega)
    rwa [recordOffset, show n - 2 * ((n - x) / 2 - 1 + 1) = x by omega] at hoff
  rcases Nat.lt_or_ge (f + 3) (n - 2 * (numRecords b + 1)) with hroom | hroom
  · -- at least four zero bytes: key length and type are zero
    have hzero : ∀ k, f ≤ k → k < f + 4 → b k = 0 := fun k hle hlt ↦
      hleaf.free k (hf ▸ hle) (by omega)
    have hlen : recordKeyLength b f = 0 := by
      rw [recordKeyLength, be16_eq_zero (hzero f (by omega) (by omega))
        (hzero (f + 1) (by omega) (by omega)), UInt16.toNat_zero]
    left
    rw [recordType, recordData, hlen]
    exact be16_eq_zero (hzero _ (by omega) (by omega)) (hzero _ (by omega) (by omega))
  · right
    rw [recordType, recordData]
    rcases Nat.lt_or_ge f (n - 2 * (numRecords b + 1)) with hlt | hge
    · -- two zero bytes: the type is the first entry of the table
      have hlen : recordKeyLength b f = 0 := by
        rw [recordKeyLength, be16_eq_zero (hleaf.free f hf.le hlt)
          (hleaf.free (f + 1) (by omega) (by omega)), UInt16.toNat_zero]
      exact hentry _ (by omega) (by omega) (by omega)
    · -- no free byte: the key length is the first entry, which is `f` itself
      have hlen : recordKeyLength b f = f := by
        rw [recordKeyLength, ← hf, recordOffset]
        congr 2
        rw [← recordOffset]
        omega
      exact hentry _ (by omega) (by omega) hin

end Free

/-! ## Catalogs as HFS+ lays them out -/

/-- The record at `o` is a file record that the scan takes for the file asked for. -/
def FileMatches (parent : UInt32) (target : List UInt8) (b : ℕ → UInt8) (o : ℕ) : Prop :=
  recordParent b o = parent ∧ squeeze (recordName b o) = target ∧ recordType b o = 2
  deriving Decidable

/-- The records of a node that the scan looks at, in its order: the last one first, and not record
`0`. -/
def visitedRecords (b : ℕ → UInt8) : List ℕ :=
  if b 8 = 255 then (List.range (numRecords b - 1)).map fun r ↦ numRecords b - 1 - r else []

/-- What the record at `o` contributes to a scan for a file. -/
def fileAt (parent : UInt32) (target : List UInt8) (b : ℕ → UInt8) (o : ℕ) : Option ScanHit :=
  if FileMatches parent target b o then some (.file (recordFork b o)) else none

section Leaf

variable {b : ℕ → UInt8} {n : ℕ}

theorem RecordInside.slotInside (h : RecordInside b n o) {q : ScanQuery}
    (hfolder : recordType b o = 1 → q.folderID → recordData b o + 12 ≤ n) : SlotInside b n o q := by
  intro hin hwanted
  have hname := h.name
  have hdata : recordData b o = o + 2 + recordKeyLength b o := rfl
  refine ⟨by omega, fun htype ↦ ?_, fun htype ↦ ?_⟩
  · rcases hwanted with ⟨-, hq⟩ | ⟨htwo, -⟩
    · exact hfolder htype hq
    · rw [htype] at htwo
      exact absurd htwo (by decide)
  · have := h.file htype
    omega

theorem RecordInside.hitAt_file (h : RecordInside b n o) (htarget : ∀ c ∈ target, c ≠ 0) :
    hitAt (fileQuery parent target) b n o = fileAt parent target b o := by
  have hname := h.name
  have htype := h.type
  have hdata : recordData b o = o + 2 + recordKeyLength b o := rfl
  have hself : target.takeWhile (· ≠ 0) = target := by
    rw [List.takeWhile_eq_self_iff]
    exact fun c hc ↦ decide_eq_true (htarget c hc)
  rw [hitAt, fileAt]
  by_cases hmatch : FileMatches parent target b o
  · have htakes : Takes (fileQuery parent target) b n o :=
      ⟨by omega, htype, hmatch.1, hmatch.2.1.trans hself.symm, Or.inr ⟨hmatch.2.2, rfl⟩⟩
    have hfolder : ¬recordType b o = 1 := by rw [hmatch.2.2]; decide
    rw [if_pos htakes, if_neg hfolder, if_pos hmatch]
  · rw [if_neg hmatch, if_neg]
    rintro ⟨-, -, hp, hs, hkind | hkind⟩
    · exact Bool.noConfusion hkind.2
    · exact hmatch ⟨hp, hs.trans hself, hkind.1⟩

theorem LeafLayout.hitAt_free (hleaf : LeafLayout b n) (hn : 2 ∣ n) (q : ScanQuery) :
    hitAt q b n (recordOffset b n (numRecords b)) = none := by
  rw [hitAt_eq_none_iff]
  rintro ⟨-, hin, -, -, hkind⟩
  have hfree := hleaf.recordType_free hn hin
  rcases hkind with ⟨htype, -⟩ | ⟨htype, -⟩
  · rw [htype] at hfree
    exact absurd hfree (by decide)
  · rw [htype] at hfree
    exact absurd hfree (by decide)

end Leaf

section Layout

variable (disk : Disk) (hfs : HfsVolume)

/-- The records that the scan of `count` nodes from `node` on looks at, in its order, each given by
its node and index. It ends at a node that cannot be read. -/
def visitedFrom (node count : ℕ) : List (ℕ × ℕ) :=
  ((List.range' node count).takeWhile (nodeReadable disk hfs)).flatMap fun node ↦
    (visitedRecords (nodeBytes disk hfs node)).map fun i ↦ (node, i)

/-- A volume with a catalog as HFS+ lays it out, of a size that the reader is meant for: nodes in
one block, a catalog below 4 GiB, sector numbers of 32 bits. -/
structure CatalogLayout : Prop where
  blockSize : hfs.blockSize = 4096 ∨ hfs.blockSize = 8192
  nodeSize : ∃ e, 9 ≤ e ∧ hfs.catalogNodeSize.toNat = 2 ^ e
  nodeSize_le : hfs.catalogNodeSize.toNat ≤ hfs.blockSize.toNat
  size : hfs.catalog.size.toNat < 4294967296
  inside : ((catalogRange hfs).2.toNat + 1) * hfs.nodeSize.toNat ≤ hfs.catalog.size.toNat
  sectors : ∀ x p, forkBlock (List.ofFn hfs.catalog.ext) x = some p →
    p * hfs.sectorsPerBlock.toNat < 4294967296
  leaf : ∀ node, (catalogRange hfs).1.toNat ≤ node → node ≤ (catalogRange hfs).2.toNat →
    nodeBytes disk hfs node 8 = 255 → LeafLayout (nodeBytes disk hfs node) hfs.nodeSize.toNat

variable {disk hfs}

namespace CatalogLayout

variable (h : CatalogLayout disk hfs)
include h

theorem toNat_nodeSize : hfs.nodeSize.toNat = hfs.catalogNodeSize.toNat := by
  obtain ⟨e, he, hsize⟩ := h.nodeSize
  have hne : hfs.catalogNodeSize ≠ 0 := by
    rw [ne_eq, ← UInt16.toNat_inj, hsize, UInt16.toNat_zero]
    exact (Nat.two_pow_pos e).ne'
  rw [HfsVolume.nodeSize, if_pos hne, UInt16.toNat_toUInt32]

theorem bs_eq : hfs.bs = hfs.blockSize := by
  rw [HfsVolume.bs, if_pos]
  rcases h.blockSize with hbs | hbs <;> rw [hbs] <;> decide

theorem sane : hfs.SaneBlockSize := by
  rcases h.blockSize with hbs | hbs <;> constructor <;> rw [hbs] <;> decide

theorem nodeSize_dvd : hfs.nodeSize.toNat ∣ hfs.bs.toNat := by
  obtain ⟨e, -, hsize⟩ := h.nodeSize
  have hle := h.nodeSize_le
  rw [h.toNat_nodeSize, h.bs_eq, hsize]
  rw [hsize] at hle
  obtain ⟨d, hd⟩ : ∃ d, hfs.blockSize.toNat = 2 ^ d := by
    rcases h.blockSize with hbs | hbs <;> rw [hbs]
    · exact ⟨12, rfl⟩
    · exact ⟨13, rfl⟩
  rw [hd] at hle ⊢
  exact pow_dvd_pow 2 ((Nat.pow_le_pow_iff_right Nat.one_lt_two).mp hle)

theorem nodeSize_bounds : 512 ≤ hfs.nodeSize.toNat ∧ 2 ∣ hfs.nodeSize.toNat ∧
    hfs.nodeSize.toNat ≤ 8192 := by
  obtain ⟨e, he, hsize⟩ := h.nodeSize
  have hle := h.nodeSize_le
  have hmax := h.sane.le
  rw [h.toNat_nodeSize]
  refine ⟨?_, ?_, by omega⟩
  · rw [hsize, show 512 = 2 ^ 9 by decide]
    exact Nat.pow_le_pow_right Nat.zero_lt_two he
  · rw [hsize]
    exact dvd_pow_self 2 (by omega)

theorem geometry : CatalogGeometry hfs := by
  obtain ⟨hmin, -, hmax⟩ := h.nodeSize_bounds
  have hsize := h.size
  have hinside := h.inside
  refine ⟨h.sane, by omega, hmax, hinside, by omega, fun node _ ↦ ?_,
    fun node _ p hp ↦ h.sectors _ p hp⟩
  -- the node size divides the block size
  obtain ⟨d, hd⟩ := h.nodeSize_dvd
  have hpos := h.sane.toNat_bs
  have hd0 : 0 < d := Nat.pos_of_ne_zero (by rintro rfl; omega)
  rw [InOneBlock, hd, Nat.mul_comm node, Nat.mul_mod_mul_left, ← Nat.mul_succ]
  exact Nat.mul_le_mul_left _ (Nat.mod_lt _ hd0)

/-- In one node, what the scan looks at for a file are the records without the first. -/
theorem findSome_slots (htarget : ∀ c ∈ target, c ≠ 0) {node : ℕ}
    (hfirst : (catalogRange hfs).1.toNat ≤ node) (hlast : node ≤ (catalogRange hfs).2.toNat) :
    ((scannedSlots (nodeBytes disk hfs node) hfs.nodeSize.toNat).map fun i ↦ (node, i)).findSome?
        (hitOf disk hfs (fileQuery parent target))
      = ((visitedRecords (nodeBytes disk hfs node)).map fun i ↦ (node, i)).findSome? fun pos ↦
          fileAt parent target (nodeBytes disk hfs pos.1) (offsetAt disk hfs pos) := by
  obtain ⟨-, heven, -⟩ := h.nodeSize_bounds
  rw [List.findSome?_map, List.findSome?_map]
  dsimp only [Function.comp_def, hitOf, offsetAt]
  generalize hb : nodeBytes disk hfs node = b
  by_cases hkind : b 8 = 255
  · have hleaf : LeafLayout b hfs.nodeSize.toNat :=
      hb ▸ h.leaf node hfirst hlast (by rw [hb]; exact hkind)
    rw [scannedSlots, if_pos ⟨hkind, hleaf.table⟩, visitedRecords, if_pos hkind]
    rcases Nat.eq_zero_or_pos (numRecords b) with hzero | hpos
    · rw [hzero]
      rfl
    · obtain ⟨num, hsucc⟩ : ∃ k, numRecords b = k + 1 := Nat.exists_eq_succ_of_ne_zero hpos.ne'
      rw [hsucc, List.range_succ_eq_map, List.map_cons, List.findSome?_cons, Nat.sub_zero, ← hsucc,
        hleaf.hitAt_free heven, hsucc, Nat.add_sub_cancel, List.map_map, List.findSome?_map,
        List.findSome?_map]
      refine findSome_congr fun r hr ↦ ?_
      dsimp only [Function.comp_apply]
      rw [show num + 1 - r.succ = num - r by omega]
      exact (hleaf.record _ (by omega)).hitAt_file htarget
  · rw [scannedSlots, if_neg fun h ↦ hkind h.1, visitedRecords, if_neg hkind]
    rfl

/-- The entries that a scan looks at are inside their nodes, if the folders it asks for are. -/
theorem slotInside {q : ScanQuery} (hpos : pos ∈ scanned disk hfs)
    (hfolder : pos.2 < numRecords (nodeBytes disk hfs pos.1) →
      recordType (nodeBytes disk hfs pos.1) (offsetAt disk hfs pos) = 1 → q.folderID →
        recordData (nodeBytes disk hfs pos.1) (offsetAt disk hfs pos) + 12 ≤ hfs.nodeSize.toNat) :
    SlotInside (nodeBytes disk hfs pos.1) hfs.nodeSize.toNat (offsetAt disk hfs pos) q := by
  obtain ⟨-, heven, -⟩ := h.nodeSize_bounds
  obtain ⟨hfirst, hlast, hi⟩ := mem_scanned hpos
  obtain ⟨node, i⟩ := pos
  dsimp only at hi
  rw [scannedSlots] at hi
  split_ifs at hi with hkind
  · have hleaf := h.leaf node hfirst hlast hkind.1
    obtain ⟨r, hr, rfl⟩ := List.mem_map.mp hi
    rw [List.mem_range] at hr
    rcases Nat.eq_zero_or_pos r with rfl | hpos
    · -- the free space is of no kind
      intro hin hwanted
      have hfree := hleaf.recordType_free heven hin
      rw [offsetAt, Nat.sub_zero] at hwanted
      rcases hwanted with ⟨htype, -⟩ | ⟨htype, -⟩
      · rw [htype] at hfree
        exact absurd hfree (by decide)
      · rw [htype] at hfree
        exact absurd hfree (by decide)
    · have hindex : numRecords (nodeBytes disk hfs node) - r
          < numRecords (nodeBytes disk hfs node) := by omega
      exact (hleaf.record _ hindex).slotInside (hfolder hindex)
  · exact absurd hi List.not_mem_nil

end CatalogLayout

variable (disk hfs) in
/-- All records that the scan looks at. -/
def visited : List (ℕ × ℕ) :=
  visitedFrom disk hfs (catalogRange hfs).1.toNat
    ((catalogRange hfs).2.toNat - (catalogRange hfs).1.toNat + 1)

/-- **What `catalog_scan_child` finds** for a file: the first record that matches, among those it
looks at. -/
theorem catalogScanChild_eq (h : CatalogLayout disk hfs) (htarget : ∀ c ∈ target, c ≠ 0)
    (secbuf : UInt32) (recType : UInt16) (m : Mem) :
    (catalogScanChild disk hfs secbuf (fileQuery parent target) recType m).1.2
      = (visited disk hfs).findSome? fun pos ↦
          fileAt parent target (nodeBytes disk hfs pos.1) (offsetAt disk hfs pos) := by
  have hle := UInt32.le_iff_toNat_le.mp (catalogRange_le hfs)
  rw [h.geometry.catalogScanChild_hit (fun pos hpos ↦ h.slotInside hpos fun _ _ hfolder ↦
    absurd hfolder Bool.false_ne_true), scanned, scannedFrom, visited, visitedFrom,
    findSome_flatMap, findSome_flatMap]
  refine findSome_congr fun node hnode ↦ ?_
  have hrange := List.mem_range'_1.mp ((List.takeWhile_sublist _).subset hnode)
  exact h.findSome_slots htarget hrange.1 (by omega)

/-! ## Completeness of the lookup -/

/-- The names of the lookup: `1` to `127` ASCII characters. -/
structure AsciiName (name : List UInt8) : Prop where
  pos : 0 < name.length
  le : name.length ≤ 127
  ascii : ∀ c ∈ name, c ≠ 0 ∧ c < 128

theorem AsciiName.squeeze (hname : AsciiName name) : squeeze (name.map UInt8.toUInt16) = name := by
  have hmap : (name.map UInt8.toUInt16).map asciiChar = name := by
    have hchar : ∀ c ∈ name, (asciiChar ∘ UInt8.toUInt16) c = id c := by
      intro c hc
      have hlt : c.toUInt16 < 128 := by
        have hascii := UInt8.lt_iff_toNat_lt.mp (hname.ascii c hc).2
        rwa [UInt16.lt_iff_toNat_lt, UInt8.toNat_toUInt16]
      rw [Function.comp_apply, asciiChar, if_pos hlt, UInt8.toUInt8_toUInt16, id_eq]
    rw [List.map_map, List.map_congr_left hchar, List.map_id]
  rw [CaribeOS.squeeze, hmap, List.take_of_length_le hname.le, List.takeWhile_eq_self_iff]
  exact fun c hc ↦ decide_eq_true (hname.ascii c hc).1

variable (disk hfs) in
/-- A record of a leaf in the scanned range. -/
structure IsRecord (pos : ℕ × ℕ) : Prop where
  first_le : (catalogRange hfs).1.toNat ≤ pos.1
  le_last : pos.1 ≤ (catalogRange hfs).2.toNat
  leaf : nodeBytes disk hfs pos.1 8 = 255
  index : pos.2 < numRecords (nodeBytes disk hfs pos.1)

variable (disk hfs) in
/-- The key of a record is `(parent, name)`. -/
def HasKey (parent : UInt32) (name : List UInt8) (pos : ℕ × ℕ) : Prop :=
  recordParent (nodeBytes disk hfs pos.1) (offsetAt disk hfs pos) = parent ∧
    recordName (nodeBytes disk hfs pos.1) (offsetAt disk hfs pos) = name.map UInt8.toUInt16

variable (disk hfs) in
/-- A file record in the scanned range, wholly inside its node, and the only one with its key. -/
structure IsFile (parent : UInt32) (name : List UInt8) (pos : ℕ × ℕ) : Prop
    extends IsRecord disk hfs pos where
  key : HasKey disk hfs parent name pos
  type : recordType (nodeBytes disk hfs pos.1) (offsetAt disk hfs pos) = 2
  inside : recordData (nodeBytes disk hfs pos.1) (offsetAt disk hfs pos) + 248 ≤ hfs.nodeSize.toNat
  unique : ∀ pos', IsRecord disk hfs pos' → HasKey disk hfs parent name pos' → pos' = pos

variable (disk hfs) in
/-- The data fork of a file record. -/
def forkAt (pos : ℕ × ℕ) : ForkMeta := recordFork (nodeBytes disk hfs pos.1) (offsetAt disk hfs pos)

variable (disk hfs) in
/-- The scan takes a record for the file asked for. -/
def MatchesAt (parent : UInt32) (name : List UInt8) (pos : ℕ × ℕ) : Prop :=
  FileMatches parent name (nodeBytes disk hfs pos.1) (offsetAt disk hfs pos)

theorem fileAt_eq_some_iff {fork : ForkMeta} :
    fileAt parent name (nodeBytes disk hfs pos.1) (offsetAt disk hfs pos) = some (.file fork) ↔
      MatchesAt disk hfs parent name pos ∧ forkAt disk hfs pos = fork := by
  rw [fileAt, MatchesAt, forkAt]
  split_ifs with hmatch
  · rw [Option.some_inj, ScanHit.file.injEq]
    exact ⟨fun hfork ↦ ⟨hmatch, hfork⟩, And.right⟩
  · exact ⟨fun hfork ↦ by contradiction, fun hfork ↦ absurd hfork.1 hmatch⟩

theorem fileAt_eq_none_iff :
    fileAt parent name (nodeBytes disk hfs pos.1) (offsetAt disk hfs pos) = none ↔
      ¬MatchesAt disk hfs parent name pos := by
  rw [fileAt, MatchesAt, ite_eq_right_iff]
  exact ⟨fun h hmatch ↦ Option.some_ne_none _ (h hmatch), fun h hmatch ↦ absurd hmatch h⟩

theorem mem_takeWhile_range {p : ℕ → Bool} {a count x : ℕ} (hle : a ≤ x) (hlt : x < a + count)
    (hp : ∀ y, a ≤ y → y ≤ x → p y = true) : x ∈ (List.range' a count).takeWhile p := by
  induction count generalizing a with
  | zero => omega
  | succ count ih =>
    rw [List.range'_succ, List.takeWhile_cons, if_pos (hp a le_rfl hle), List.mem_cons]
    rcases Nat.eq_or_lt_of_le hle with rfl | hgt
    · exact Or.inl rfl
    · exact Or.inr (ih hgt (by omega) fun y hy ↦ hp y (by omega))

/-- A record other than the first of its node is looked at, if the nodes up to its own can be
read. -/
theorem IsRecord.mem_visited (hpos : IsRecord disk hfs pos) (hindex : 1 ≤ pos.2)
    (hread : ∀ node, (catalogRange hfs).1.toNat ≤ node → node ≤ pos.1 →
      nodeReadable disk hfs node = true) : pos ∈ visited disk hfs := by
  have hle := hpos.le_last
  have hlt := hpos.index
  rw [visited, visitedFrom, List.mem_flatMap]
  refine ⟨pos.1, mem_takeWhile_range hpos.first_le (by omega) hread, ?_⟩
  rw [visitedRecords, if_pos hpos.leaf, List.map_map, List.mem_map]
  refine ⟨numRecords (nodeBytes disk hfs pos.1) - 1 - pos.2, ?_, ?_⟩
  · rw [List.mem_range]
    omega
  · rw [Function.comp_apply, Nat.sub_sub_self (by omega)]

/-- **The lookup of a file**: it finds the file exactly when, among the records looked at, the first
that matches has that file's fork. That is so when the file is not record `0` of its node, the
nodes up to its own can be read and no other file record looked at has a name that is converted to
the same one. -/
theorem catalogLookup_iff (h : CatalogLayout disk hfs) {parent : UInt32} {name : List UInt8}
    (hname : AsciiName name) {pos : ℕ × ℕ} (hpos : IsFile disk hfs parent name pos)
    (secbuf : UInt32) (recType : UInt16) (m : Mem) :
    ((catalogScanChild disk hfs secbuf (fileQuery parent name) recType m).1.2
        = some (.file (forkAt disk hfs pos)) ↔
      ∃ before found after, visited disk hfs = before ++ found :: after ∧
        (MatchesAt disk hfs parent name found ∧ forkAt disk hfs found = forkAt disk hfs pos) ∧
        ∀ earlier ∈ before, ¬MatchesAt disk hfs parent name earlier) ∧
    (1 ≤ pos.2 →
      (∀ node, (catalogRange hfs).1.toNat ≤ node → node ≤ pos.1 →
        nodeReadable disk hfs node = true) →
      (∀ other ∈ visited disk hfs, MatchesAt disk hfs parent name other → other = pos) →
      (catalogScanChild disk hfs secbuf (fileQuery parent name) recType m).1.2
        = some (.file (forkAt disk hfs pos))) := by
  have hscan : (catalogScanChild disk hfs secbuf (fileQuery parent name) recType m).1.2 = _ :=
    catalogScanChild_eq h (fun c hc ↦ (hname.ascii c hc).1) secbuf recType m
  have hiff : (catalogScanChild disk hfs secbuf (fileQuery parent name) recType m).1.2
        = some (.file (forkAt disk hfs pos)) ↔
      ∃ before found after, visited disk hfs = before ++ found :: after ∧
        (MatchesAt disk hfs parent name found ∧ forkAt disk hfs found = forkAt disk hfs pos) ∧
        ∀ earlier ∈ before, ¬MatchesAt disk hfs parent name earlier := by
    rw [hscan, List.findSome?_eq_some_iff]
    simp only [fileAt_eq_some_iff, fileAt_eq_none_iff]
  refine ⟨hiff, fun hindex hread hother ↦ ?_⟩
  have hfile : fileAt parent name (nodeBytes disk hfs pos.1) (offsetAt disk hfs pos)
      = some (.file (forkAt disk hfs pos)) := by
    rw [fileAt_eq_some_iff]
    refine ⟨⟨hpos.key.1, ?_, hpos.type⟩, rfl⟩
    rw [hpos.key.2, hname.squeeze]
  rw [hscan]
  cases hfind : (visited disk hfs).findSome? fun pos ↦
      fileAt parent name (nodeBytes disk hfs pos.1) (offsetAt disk hfs pos) with
  | none =>
    have hnone := List.findSome?_eq_none_iff.mp hfind pos (hpos.mem_visited hindex hread)
    rw [hfile] at hnone
    exact absurd hnone (Option.some_ne_none _)
  | some hit =>
    obtain ⟨found, hmem, hfound⟩ := List.exists_of_findSome?_eq_some hfind
    have hmatch : MatchesAt disk hfs parent name found := by
      by_contra hnot
      rw [fileAt_eq_none_iff.mpr hnot] at hfound
      exact Option.some_ne_none _ hfound.symm
    rw [hother found hmem hmatch, hfile] at hfound
    exact hfound.symm

end Layout

/-! ### A leaf with two files -/

/-- The bytes of a leaf of 1 KiB with the files `a` and `b` of the root folder, where they are not
zero: the node descriptor, the two records, and the offset table. -/
def twoFilesLeaf : List (ℕ × UInt8) :=
  [(8, 255), (11, 2),
    (15, 8), (19, 2), (21, 1), (23, 97), (25, 2), (119, 1), (131, 7), (135, 1),
    (273, 8), (277, 2), (279, 1), (281, 98), (283, 2), (377, 2), (389, 9), (393, 1),
    (1018, 2), (1019, 18), (1020, 1), (1021, 16), (1023, 14)]

/-- A disk with that leaf as node 1 of the catalog of `twoFiles`. -/
def twoFilesDisk : Disk where
  bytes x := (twoFilesLeaf.lookup (x - 41984)).getD 0
  ok _ _ := true

def twoFiles : HfsVolume where
  blockSize := 4096
  totalBlocks := 64
  catalogNodeSize := 1024
  firstLeafNode := 1
  lastLeafNode := 1
  totalCatalogNodes := 4
  catalog := ⟨4096, fun
    | 0 => ⟨10, 1⟩
    | _ => ⟨0, 0⟩⟩

theorem numRecords_twoFiles : numRecords (nodeBytes twoFilesDisk twoFiles 1) = 2 := by
  decide

theorem leafLayout_twoFiles : LeafLayout (nodeBytes twoFilesDisk twoFiles 1) 1024 where
  table := by decide
  offset := by
    decide
  record := by
    rw [numRecords_twoFiles]
    intro i hi
    interval_cases i <;> constructor <;> decide
  even := by decide
  free_le := by decide
  free := by
    decide +kernel

theorem catalogLayout_twoFiles : CatalogLayout twoFilesDisk twoFiles where
  blockSize := by decide
  nodeSize := ⟨10, by decide, by decide⟩
  nodeSize_le := by decide
  size := by decide
  inside := by decide
  sectors x p hp := by
    have hext : List.ofFn twoFiles.catalog.ext = ⟨10, 1⟩ :: List.replicate 7 ⟨0, 0⟩ := by decide
    rw [hext] at hp
    simp only [forkBlock, List.replicate_succ, List.replicate_zero, UInt32.reduceToNat,
      Nat.not_lt_zero, if_false] at hp
    split_ifs at hp with hx
    rw [Option.some_inj] at hp
    rw [show twoFiles.sectorsPerBlock.toNat = 8 by decide]
    omega
  leaf node hfirst hlast _ := by
    obtain rfl : node = 1 := le_antisymm hlast hfirst
    exact leafLayout_twoFiles

theorem isRecord_twoFiles (hpos : IsRecord twoFilesDisk twoFiles pos) :
    pos = (1, 0) ∨ pos = (1, 1) := by
  obtain ⟨node, i⟩ := pos
  obtain rfl : node = 1 := le_antisymm hpos.le_last hpos.first_le
  have hindex : i < 2 := hpos.index.trans_eq numRecords_twoFiles
  interval_cases i
  · exact Or.inl rfl
  · exact Or.inr rfl

theorem isFile_a : IsFile twoFilesDisk twoFiles 2 [97] (1, 0) where
  first_le := by decide
  le_last := by decide
  leaf := by decide
  index := by decide
  key := ⟨by decide, by decide⟩
  type := by decide
  inside := by decide
  unique pos hpos hkey := by
    rcases isRecord_twoFiles hpos with rfl | rfl
    · rfl
    · exact absurd hkey.2 (by decide)

theorem isFile_b : IsFile twoFilesDisk twoFiles 2 [98] (1, 1) where
  first_le := by decide
  le_last := by decide
  leaf := by decide
  index := by decide
  key := ⟨by decide, by decide⟩
  type := by decide
  inside := by decide
  unique pos hpos hkey := by
    rcases isRecord_twoFiles hpos with rfl | rfl
    · exact absurd hkey.2 (by decide)
    · rfl

theorem visited_twoFiles : visited twoFilesDisk twoFiles = [(1, 1)] := by decide

theorem asciiName_singleton {c : UInt8} (hpos : c ≠ 0) (hlt : c < 128) : AsciiName [c] :=
  ⟨Nat.zero_lt_one, Nat.le_add_left 1 126,
    fun x hx ↦ by rw [List.mem_singleton.mp hx]; exact ⟨hpos, hlt⟩⟩

/-- `b` is found. -/
theorem catalogLookup_iff_b :
    (catalogScanChild twoFilesDisk twoFiles 2149580800 (fileQuery 2 [98]) 0 fun _ ↦ 0).1.2
      = some (.file (forkAt twoFilesDisk twoFiles (1, 1))) := by
  refine (catalogLookup_iff catalogLayout_twoFiles (asciiName_singleton (by decide) (by decide))
    isFile_b _ _ _).2 le_rfl (fun node hfirst hlast ↦ ?_) fun other hother _ ↦ ?_
  · obtain rfl : node = 1 := le_antisymm hlast hfirst
    decide
  · rw [visited_twoFiles] at hother
    exact List.mem_singleton.mp hother

/-- `a`, record `0` of its leaf, is not, although it is there and the only file of that name. -/
theorem record_zero_not_found :
    CatalogLayout twoFilesDisk twoFiles ∧ AsciiName [97] ∧
      IsFile twoFilesDisk twoFiles 2 [97] (1, 0) ∧
      (catalogScanChild twoFilesDisk twoFiles 2149580800 (fileQuery 2 [97]) 0 fun _ ↦ 0).1.2
        = none := by
  have hname : AsciiName [97] := asciiName_singleton (by decide) (by decide)
  refine ⟨catalogLayout_twoFiles, hname, isFile_a, ?_⟩
  rw [catalogScanChild_eq catalogLayout_twoFiles (fun c hc ↦ (hname.ascii c hc).1),
    visited_twoFiles]
  have hother : ¬MatchesAt twoFilesDisk twoFiles 2 [97] (1, 1) := by
    rintro ⟨-, hsqueeze, -⟩
    exact absurd hsqueeze (by decide)
  exact fileAt_eq_none_iff.mpr hother

end CaribeOS
