import CaribeOS.Hfs.ReadBack

/-!
# What the booter reads after a file is created

`hfs-create-root-file.py` puts a record behind those of the first leaf, and the scans of the booter
come to it before all others (`RecordAdded.visits_eq`). They skip the first record of a leaf, so the
leaf must have had one. All other lookups end where they did if the name is new, and the data of
the files there were is not touched: `created_file_read_back`.

The size of a file is given to the booter's caller in 32 bits. A file of 4 GiB can be created and not
be read (`large_file_not_read`).
-/

namespace CaribeOS.HfsScript

open FileScript Extents ByteMemory

variable {name path : List Char} {img payload : Buf} {q : ScanQuery} {hfs : HFSPlusImage}
  {ws : List Write} {i : ForkId} {b : ℕ}

theorem nameUnits_ascii (h : AsciiChars name) :
    (∀ u ∈ nameUnits name, u ≠ 0 ∧ u < 128) ∧
      (nameUnits name).map UInt16.toUInt8 = pathBytes name := by
  have hunit : ∀ ch ∈ name, (UInt16.ofNat ch.toNat).toNat = ch.toNat := by
    intro ch hch
    have hle := (h ch hch).2
    rw [UInt16.toNat_ofNat', Nat.mod_eq_of_lt (by omega)]
  constructor
  · intro u hu
    obtain ⟨ch, hch, rfl⟩ := List.mem_map.mp hu
    obtain ⟨hne, hle⟩ := h ch hch
    constructor
    · intro hzero
      have hnat := congrArg UInt16.toNat hzero
      rw [hunit ch hch] at hnat
      exact hne hnat
    · rw [UInt16.lt_iff_toNat_lt, hunit ch hch]
      change _ < 128
      omega
  · rw [nameUnits, pathBytes, List.map_map]
    refine List.map_congr_left fun ch hch ↦ ?_
    rw [Function.comp_apply, ← UInt8.ofNat_uInt16ToNat, hunit ch hch]

namespace RecordAdded

variable {hfs : HFSPlusImage} {c c' : Contents} {b' : ℕ → UInt8} {name : List Char} {size : ℕ}
  {extent : ℕ × ℕ} {p : ℕ × ℕ} (h : RecordAdded hfs c c' b' name size extent)
include h

/-- **A scan** comes to the new record first. -/
theorem visits_eq (hsome : 0 < numRecords (c.node hfs.firstLeaf)) :
    c'.visits hfs = c.newPos hfs :: c.visits hfs := by
  obtain ⟨k, hk⟩ : ∃ k, numRecords (c.node hfs.firstLeaf) = k + 1 :=
    ⟨_, (Nat.succ_pred_eq_of_pos hsome).symm⟩
  have hkind := h.inserted.can.leaf
  have hnew : visitedRecords b' = (k + 1) :: visitedRecords (c.node hfs.firstLeaf) := by
    rw [visitedRecords, visitedRecords, if_pos hkind, h.inserted.descriptor 8 (by omega),
      if_pos hkind, h.inserted.num, hk, Nat.add_sub_cancel, List.range_succ_eq_map, List.map_cons,
      List.map_map]
    refine congrArg₂ List.cons rfl (List.map_congr_left fun r _ ↦ ?_)
    rw [Function.comp_apply]
    omega
  have hrest : ∀ n ∈ List.range' (hfs.firstLeaf + 1) (hfs.lastLeaf - hfs.firstLeaf),
      ((visitedRecords (c'.node n)).map fun i ↦ (n, i))
        = (visitedRecords (c.node n)).map fun i ↦ (n, i) := by
    intro n hn
    rw [List.mem_range'_1] at hn
    rw [h.node_of_ne (by omega)]
  rw [Contents.visits, Contents.visits, List.range'_succ, List.flatMap_cons, List.flatMap_cons,
    List.flatMap_congr hrest, h.node_first, hnew, List.map_cons, List.cons_append,
    Contents.newPos, hk]

theorem takes_iff (hindex : p.2 < numRecords (c.node p.1)) (q : ScanQuery) :
    c'.Takes hfs q p ↔ c.Takes hfs q p := by
  have hsame := h.sameRecord hindex
  rw [Contents.Takes, Contents.Takes, h.offset_eq hindex, hsame.parent, hsame.name,
    IsWanted, hsame.type, IsWanted]

theorem takes_new_iff (hlen : name.length ≤ 127) (q : ScanQuery) :
    c'.Takes hfs q (c.newPos hfs) ↔
      2 = q.parent ∧ pathBytes name = q.target.takeWhile (· ≠ 0) ∧ q.fileFork = true := by
  have hrecord := h.record_new
  obtain ⟨hascii, hbytes⟩ := nameUnits_ascii h.inserted.can.ascii
  have hsqueeze : squeeze (nameUnits name) = pathBytes name := by
    rw [squeeze_ascii (by rw [nameUnits, List.length_map]; exact hlen) hascii, hbytes]
  rw [Contents.Takes, IsWanted]
  rw [Contents.newPos] at hrecord ⊢
  rw [hrecord.parent, hrecord.units, hsqueeze, hrecord.recordType_eq]
  have hfolder : ¬(2 : UInt16) = 1 := by decide
  simp only [hfolder, false_and, true_and, false_or]

theorem dataFork_new : (c'.dataFork hfs (c.newPos hfs)).size.toNat = size := by
  rw [Contents.dataFork, h.dataOffset_new]
  exact h.record_new.data.size

theorem dataFork_old (hfile : c.IsFile hfs p) : c'.dataFork hfs p = c.dataFork hfs p := by
  have hend := recordEnd_file hfile.file
  have hdata : c.dataOffset hfs p = c.offset hfs p + 2 + _ := rfl
  rw [← Contents.dataOffset] at hend
  rw [Contents.dataFork, h.dataOffset_eq hfile.index_lt, Contents.dataFork,
    forkData_congr fun k hle hlt ↦ h.byte_eq hfile.index_lt (by omega) (by omega)]

section Lookup

variable (hsome : 0 < numRecords (c.node hfs.firstLeaf)) (hlen : name.length ≤ 127)
include hsome hlen

theorem child_new (hparent : q.parent = 2) (htarget : q.target = pathBytes name)
    (hfile : q.fileFork = true) : c'.child hfs q = some (c.newPos hfs) := by
  obtain ⟨hascii, hbytes⟩ := nameUnits_ascii h.inserted.can.ascii
  have hself := takeWhile_ascii hascii
  rw [hbytes] at hself
  have htakes : c'.Takes hfs q (c.newPos hfs) := by
    rw [h.takes_new_iff hlen, hparent, htarget, hself]
    exact ⟨rfl, rfl, hfile⟩
  rw [Contents.child, h.visits_eq hsome]
  exact List.find?_cons_of_pos (p := fun pos ↦ c'.Takes hfs q pos) (decide_eq_true htakes)

/-- **All other scans** end where they did, if the name is new. -/
theorem child_old (s : Sound img hfs) (hkeys : c.KeysPlain hfs)
    (habsent : ∀ pos, c.IsRecord hfs pos → c.parentOf hfs pos = 2 →
      c.nameOf hfs pos ≠ nameUnits name) (hchild : c.child hfs q = some p) :
    c'.child hfs q = some p := by
  obtain ⟨hvisited, hparent, hname, hwanted⟩ := s.child_spec hchild
  have hrecord := s.isRecord_of_visited hvisited
  -- the new record would have the key of the one that is found
  have hnot : ¬c'.Takes hfs q (c.newPos hfs) := by
    rw [h.takes_new_iff hlen]
    rintro ⟨htwo, hnew, -⟩
    obtain ⟨hascii, hbytes⟩ := nameUnits_ascii h.inserted.can.ascii
    refine habsent p hrecord (hparent.trans htwo.symm) ?_
    refine map_toUInt8_inj (fun u hu ↦ (hkeys.ascii p hrecord u hu).2)
      (fun u hu ↦ (hascii u hu).2) ?_
    rw [hbytes, hnew, ← hname]
    exact (squeeze_ascii (hkeys.length p hrecord) (hkeys.ascii p hrecord)).symm
  rw [Contents.child, h.visits_eq hsome, List.find?_cons_of_neg (by simpa using hnot), ← hchild,
    Contents.child]
  refine List.find?_congr fun pos hpos ↦ ?_
  exact decide_eq_decide.mpr (h.takes_iff (s.mem_visits_iff.mp hpos).index_lt q)

end Lookup

theorem folderNumber_eq (s : Sound img hfs) {parent : UInt32} {target : List UInt8}
    (hchild : c.child hfs (folderQuery parent target) = some p) :
    c'.folderNumber hfs p = c.folderNumber hfs p := by
  obtain ⟨hvisited, htakes⟩ := s.child_spec hchild
  have htype := htakes.folder
  have hend := recordEnd_folder htype
  have hdata : c.dataOffset hfs p = c.offset hfs p + 2 + _ := rfl
  rw [← Contents.dataOffset] at hend
  rw [Contents.folderNumber, h.dataOffset_eq hvisited.index_lt, Contents.folderNumber,
    be32_congr fun k hle hlt ↦ h.byte_eq hvisited.index_lt (by omega) (by omega)]

end RecordAdded

/-- **What a create does**, if it succeeds. -/
theorem Sound.createdFile (s : Sound img hfs)
    (hrun : createRootFile path payload img = (.ok (), ws)) :
    ('/' ∉ stripSlashes path ∧ stripSlashes path ≠ []) ∧ ∃ b' extent,
      RecordAdded hfs (contents hfs img) (contents hfs (img.writes ws)) b' (stripSlashes path)
        payload.size extent ∧
      Stored img (img.writes ws) hfs ((contents hfs img).newPos hfs) payload := by
  have s' := s.created hrun
  obtain ⟨hcan, start, bm, vh, bws, dws, vh', b', nws, hdata, hcounted, hputs, rfl, hsize, -, h⟩ :=
    s.createRootFile_ok hrun
  have hbs := s.blockSize_pos
  have havoids := s.avoids_free hdata.reserves.free
  obtain ⟨hsize₁, -⟩ := s.contents_dataPut hdata
  have g₁ : Geometry hfs (img.writes (⟨1024, vh⟩ :: bws ++ dws)).size := hsize₁.symm ▸ s.geometry
  have hlast : Touches (blockRegion hfs.blockSize (WrittenBlock hfs [])) (⟨1024, vh'⟩ :: nws) :=
    (Touches.written (s.geometry.touches_header hcounted.size) fun _ ↦ Or.inl).append
      (Touches.written (hputs.all.touches hbs) fun _ hb ↦ Or.inr (Or.inr (Or.inl hb)))
  refine ⟨hcan.root, b', _, h, ⟨_, s'⟩, hsize, ?_, fun k hk ↦ ?_, fun p hp _ ↦ ?_⟩
  · rw [h.blocksOf_new, List.length_range']
    exact le_ceilDiv_mul hbs
  · rw [h.blocksOf_new, Buf.writes_append, g₁.bytesOf_writes havoids.lt (fun b hb ↦ ?_) hlast,
      Buf.writes_append]
    · exact hdata.data _ k hk
    · rintro (hheader | hbitmap | hcatalog | hnil)
      · exact havoids.header b hb hheader
      · exact havoids.bitmap b hbitmap hb
      · exact havoids.catalog b hcatalog hb
      · exact List.not_mem_nil hnil
  · have hall : Touches (blockRegion hfs.blockSize (WrittenBlock hfs
        (List.range' start (ceilDiv payload.size hfs.blockSize))))
        (⟨1024, vh⟩ :: bws ++ dws ++ ⟨1024, vh'⟩ :: nws) := by
      refine Touches.append (Touches.append ?_ ?_) (hlast.mono fun x hx ↦ ?_)
      · exact (Touches.written (s.geometry.touches_header hdata.header.size) fun _ ↦ Or.inl).append
          (Touches.written (hdata.bitmap.all.touches hbs) fun _ hb ↦ Or.inr (Or.inl hb))
      · exact Touches.written hdata.touches fun _ hb ↦ Or.inr (Or.inr (Or.inr hb))
      · exact hx.imp_right (Or.imp_right (Or.imp_right fun hnil ↦ absurd hnil List.not_mem_nil))
    refine s.bytesOf_kept hall hp fun b hb hmem ↦ ?_
    exact (hdata.reserves.free b hmem).2 (s.owned.marked (.data p) hp b hb)

theorem pathComponents_root (hroot : '/' ∉ name ∧ name ≠ []) (hascii : AsciiChars name) :
    pathComponents (pathBytes ('/' :: name)) = [pathBytes name] := by
  have hlt : ∀ ch ∈ '/' :: name, ch.toNat < 128 := by
    intro ch hch
    rcases List.mem_cons.mp hch with rfl | hmem
    · decide
    · exact Nat.lt_succ_of_le (hascii ch hmem).2
  have hparts : ('/' :: name).parts '/' = [name] := by
    rw [List.parts_cons_self, List.parts_of_notMem hroot.1 hroot.2]
  rw [pathComponents_pathBytes hlt, hparts, List.map_singleton]

/-- **A created file is read back.** After a successful create, the booter reads the payload from the
root folder, and it reads every path that it could read, as before. -/
theorem created_file_read_back {img payload : Buf} {hfs : HFSPlusImage} {path : List Char}
    {ws : List Write} {disk disk' : Disk} (s : Sound img hfs) (hb : BooterSized hfs img.size)
    (hkeys : (contents hfs img).KeysPlain hfs)
    (hsome : 0 < numRecords ((contents hfs img).node hfs.firstLeaf))
    (hlen : (stripSlashes path).length ≤ 127)
    (habsent : ∀ pos, (contents hfs img).IsRecord hfs pos → (contents hfs img).parentOf hfs pos = 2 →
      (contents hfs img).nameOf hfs pos ≠ nameUnits (stripSlashes path))
    (hpayload : 0 < payload.size) (hrun : createRootFile path payload img = (.ok (), ws))
    (hdisk : Holds disk img) (hdisk' : Holds disk' (img.writes ws)) :
    ∃ vol vol', Mounts disk vol ∧ Mounts disk' vol' ∧
      Delivers disk' vol' (pathBytes ('/' :: stripSlashes path)) payload ∧
      ∀ other, CanRead disk vol other → ReadsSame disk disk' vol vol' other := by
  obtain ⟨hroot, b', extent, hadded, hstored⟩ := s.createdFile hrun
  obtain ⟨free, s'⟩ := hstored.sound
  have hb' := hstored.booterSized hb free
  have hnew := hadded.isFile_iff.mpr (Or.inr rfl)
  have hnode : 512 ≤ hfs.nodeSize :=
    s'.nodeSize_ge hb' ⟨hnew.node_lt, hnew.leaf, hnew.index_lt, hnew.file⟩
  obtain ⟨vol, v, hmount⟩ := s.view hb hnode hdisk
  obtain ⟨vol', v', hmount'⟩ := s'.view hb' hnode hdisk'
  refine ⟨vol, vol', hmount, hmount', ?_, fun other hread ↦ ?_⟩
  · refine v'.delivers ?_ hpayload hadded.dataFork_new hstored.covered hstored.data
    rw [pathComponents_root hroot hadded.inserted.can.ascii]
    refine hadded.child_new hsome hlen rfl ?_ rfl
    exact List.take_of_length_le (by rw [pathBytes, List.length_map]; exact hlen)
  · obtain ⟨pos, hwalk⟩ := v.walk_of_canRead hread
    have hfile := (v.isFile_of_walk hwalk).2
    refine v.readsSame v' hwalk ?_ (hadded.dataFork_old hfile) rfl (hstored.others pos hfile ?_)
    · refine Contents.walk_mono (fun q found hq ↦ ?_) (fun parent name found hq ↦ ?_) hwalk
      · exact hadded.child_old hsome hlen s hkeys habsent hq
      · exact hadded.folderNumber_eq s hq
    · rintro rfl
      exact absurd hfile.index_lt (Nat.lt_irrefl _)

theorem created_file_read_back_threeFiles : ∃ ws,
    createRootFile ['/', 'd'] ⟨1, fun _ ↦ 68⟩ threeFiles = (.ok (), ws) ∧
      ∃ vol', Mounts (diskOf (threeFiles.writes ws)) vol' ∧
        Delivers (diskOf (threeFiles.writes ws)) vol' (pathBytes ['/', 'd']) ⟨1, fun _ ↦ 68⟩ := by
  obtain ⟨_, hrun⟩ := exists_of_isOk
    (r := createRootFile ['/', 'd'] ⟨1, fun _ ↦ 68⟩ threeFiles) (by decide +kernel)
  have habsent : ∀ pos, threeFilesContents.IsRecord threeFilesVolume pos →
      threeFilesContents.parentOf threeFilesVolume pos = 2 →
      threeFilesContents.nameOf threeFilesVolume pos ≠ nameUnits (stripSlashes ['/', 'd']) := by
    intro pos hpos _
    rcases record_threeFiles hpos.node_lt hpos.leaf hpos.index_lt with rfl | rfl | rfl <;>
      decide
  obtain ⟨-, vol', -, hmount', hdelivers, -⟩ := created_file_read_back sound_threeFiles
    booterSized_threeFiles keysPlain_threeFiles (by decide) (by decide) habsent
    (by decide) hrun (holds_diskOf _) (holds_diskOf _)
  exact ⟨_, hrun, vol', hmount', hdelivers⟩

/-! ### Files that are too large -/

/-- A file of 4 GiB or more is not read into any buffer. -/
theorem Sound.created_not_read {disk' : Disk} (s : Sound img hfs) (hb : BooterSized hfs img.size)
    (hsome : 0 < numRecords ((contents hfs img).node hfs.firstLeaf))
    (hlen : (stripSlashes path).length ≤ 127) (hlarge : 4294967296 ≤ payload.size)
    (hrun : createRootFile path payload img = (.ok (), ws)) (hdisk' : Holds disk' (img.writes ws)) :
    ∃ vol', Mounts disk' vol' ∧ ¬CanRead disk' vol' (pathBytes ('/' :: stripSlashes path)) := by
  obtain ⟨hroot, b', extent, hadded, hstored⟩ := s.createdFile hrun
  obtain ⟨free, s'⟩ := hstored.sound
  have hb' := hstored.booterSized hb free
  have hnew := hadded.isFile_iff.mpr (Or.inr rfl)
  have hnode : 512 ≤ hfs.nodeSize :=
    s'.nodeSize_ge hb' ⟨hnew.node_lt, hnew.leaf, hnew.index_lt, hnew.file⟩
  obtain ⟨vol', v', hmount'⟩ := s'.view hb' hnode hdisk'
  refine ⟨vol', hmount', ?_⟩
  rintro ⟨secbuf, dst, cap, m, hread⟩
  have hwalk : (contents { hfs with freeBlocks := free } (img.writes ws)).walk
      { hfs with freeBlocks := free } 2 (pathComponents (pathBytes ('/' :: stripSlashes path)))
        = some ((contents hfs img).newPos hfs) := by
    rw [pathComponents_root hroot hadded.inserted.can.ascii]
    refine hadded.child_new hsome hlen rfl ?_ rfl
    exact List.take_of_length_le (by rw [pathBytes, List.length_map]; exact hlen)
  refine hread (v'.readFile_of_not_readable hwalk fun hreadable ↦ ?_)
  have hle := hreadable.le
  have hcap := cap.toNat_lt
  have hsize : ((contents hfs (img.writes ws)).dataFork hfs
    ((contents hfs img).newPos hfs)).size.toNat = payload.size := hadded.dataFork_new
  change ((contents hfs (img.writes ws)).dataFork hfs ((contents hfs img).newPos hfs)).size.toNat
    ≤ _ at hle
  omega

/-- The bytes of a volume of 8 GiB that are not zero. There is one file, and it is empty. -/
def emptyDiskBytes : List (ℕ × UInt8) :=
  [(1024, 72), (1025, 43), (1059, 1), (1066, 32), (1069, 16), (1073, 15), (1074, 255), (1075, 238),
    (1087, 20), (1141, 2), (1155, 1), (1159, 16), (1302, 32), (1315, 17), (1319, 1),
    (8192, 255), (8193, 255), (8194, 192),
    (139291, 1), (139295, 1), (139296, 8), (139303, 2),
    (141320, 255), (141323, 1), (141327, 8), (141331, 2), (141333, 1), (141335, 97), (141337, 2),
    (143356, 1), (143357, 16), (143359, 14)]

def emptyDisk : Buf where
  size := 8589934592
  byte x := (emptyDiskBytes.lookup x).getD 0

def emptyDiskVolume : HFSPlusImage where
  blockSize := 8192
  totalBlocks := 1048576
  freeBlocks := 1048558
  allocation := ⟨131072, [(1, 16)]⟩
  catalog := ⟨8192, [(17, 1)]⟩
  nodeSize := 2048
  firstLeaf := 1
  lastLeaf := 1
  totalNodes := 2

theorem mount_emptyDisk : mount emptyDisk = .ok emptyDiskVolume := by
  rw [mount_eq (by decide) (by decide) (by decide) (by decide)]
  · rfl
  · intro a ha
    have hblocks : blocks (forkAt (header emptyDisk) 272).extents = [17] := by decide
    have hbs : (CaribeOS.be32 (header emptyDisk) 40).toNat = 8192 := by decide
    rw [hblocks, hbs, List.mem_singleton] at ha
    change a < 8589934592
    omega

/-- The contents of that volume. -/
def emptyDiskContents : Contents := contents emptyDiskVolume emptyDisk

theorem byte_emptyDisk {lo hi x : ℕ} (hkeys : ∀ e ∈ emptyDiskBytes, e.1 < lo ∨ hi ≤ e.1)
    (hle : lo ≤ x) (hlt : x < hi) : emptyDisk.byte x = 0 := by
  have hnone : emptyDiskBytes.lookup x = none := by
    rw [List.lookup_eq_none_iff]
    intro e he
    have hkey := hkeys e he
    rw [bne_iff_ne]
    omega
  rw [emptyDisk]
  dsimp only
  rw [hnone, Option.getD_none]

theorem node_emptyDisk {k : ℕ} (hk : k < 2048) :
    emptyDiskContents.node 1 k = emptyDisk.byte (141312 + k) := by
  have hblocks : catalogBlocks emptyDiskVolume = [17] := rfl
  have hin : k < emptyDiskVolume.nodeSize := hk
  have hdiv : (1 * 2048 + k) / 8192 = 0 := by omega
  rw [emptyDiskContents, contents]
  dsimp only
  rw [if_pos (by decide), overlay_of_lt hin, hblocks]
  refine bytesOf_eq (byteAt_eq_some_iff.mpr ⟨17, ?_, ?_⟩)
  · change [17][(1 * 2048 + k) / 8192]? = _
    rw [hdiv]
    rfl
  · change 17 * 8192 + (1 * 2048 + k) % 8192 = _
    omega

theorem numRecords_emptyDisk : numRecords (emptyDiskContents.node 1) = 1 := by decide

theorem offset_emptyDisk : recordOffset (emptyDiskContents.node 1) 2048 0 = 14 := by decide

theorem freeOffset_emptyDisk : freeOffset (emptyDiskContents.node 1) 2048 = 272 := by
  decide

theorem record_emptyDisk {pos : ℕ × ℕ} (hn : pos.1 < emptyDiskVolume.totalNodes)
    (hleaf : emptyDiskContents.node pos.1 8 = 255)
    (hi : pos.2 < numRecords (emptyDiskContents.node pos.1)) : pos = (1, 0) := by
  obtain ⟨n, i⟩ := pos
  change n < 2 at hn
  dsimp only at hleaf hi
  interval_cases n
  · exact absurd hleaf (by decide)
  · rw [numRecords_emptyDisk, Nat.lt_one_iff] at hi
    rw [hi]

theorem leafRecords_emptyDisk : LeafRecords (emptyDiskContents.node 1) 2048 := by
  have hone : ∀ i < 1, i = 0 := fun i hi ↦ Nat.lt_one_iff.mp hi
  constructor <;> simp only [freeOffset_emptyDisk, numRecords_emptyDisk]
  · decide
  · decide
  · decide
  · decide
  · intro k hle hlt
    rw [node_emptyDisk (by omega)]
    have hkeys : ∀ e ∈ emptyDiskBytes, e.1 < 141584 ∨ 143356 ≤ e.1 := by decide
    exact byte_emptyDisk hkeys (by omega) (by omega)
  · intro i hi
    rw [hone i hi, offset_emptyDisk]
  · decide
  · decide
  · intro i hi j hj hne
    exact absurd ((hone i hi).trans (hone j hj).symm) hne

theorem blocksOf_emptyDisk (h : emptyDiskContents.HasFork emptyDiskVolume i) :
    emptyDiskContents.blocksOf emptyDiskVolume i
      = if i = .system 0 then List.range' 1 16 else if i = .system 2 then [17] else [] := by
  have hpos : ∀ pos, emptyDiskContents.IsFile emptyDiskVolume pos → pos = (1, 0) :=
    fun pos h ↦ record_emptyDisk h.node_lt h.leaf h.index_lt
  cases i with
  | system i => fin_cases i <;> decide
  | data pos =>
    rw [hpos pos h]
    decide
  | resource pos =>
    rw [hpos pos h]
    decide

theorem mem_blocksOf_emptyDisk (h : emptyDiskContents.HasFork emptyDiskVolume i)
    (hb : b ∈ emptyDiskContents.blocksOf emptyDiskVolume i) :
    0 < b ∧ ((b < 17 ∧ i = .system 0) ∨ (b = 17 ∧ i = .system 2)) := by
  rw [blocksOf_emptyDisk h] at hb
  split_ifs at hb with h0 h2
  · rw [List.mem_range'_1] at hb
    exact ⟨by omega, Or.inl ⟨by omega, h0⟩⟩
  · rw [List.mem_singleton] at hb
    exact ⟨by omega, Or.inr ⟨hb, h2⟩⟩
  · exact absurd hb List.not_mem_nil

theorem marked_emptyDisk : ∀ b < 18, emptyDiskContents.Marked b := by decide

theorem headerBlock_emptyDisk (h : HeaderBlock 8192 b) : b = 0 := by
  have hlt := h.1
  omega

theorem blocksOwned_emptyDisk : emptyDiskContents.BlocksOwned emptyDiskVolume where
  nodup i hi := by
    rw [blocksOf_emptyDisk hi]
    split_ifs
    · exact List.nodup_range'
    · exact List.nodup_singleton 17
    · exact List.nodup_nil
  disjoint i j hi hj hne b hb hb' := by
    rcases (mem_blocksOf_emptyDisk hi hb).2 with ⟨hlt, rfl⟩ | ⟨rfl, rfl⟩ <;>
      rcases (mem_blocksOf_emptyDisk hj hb').2 with ⟨hlt', rfl⟩ | ⟨heq, rfl⟩
    · exact hne rfl
    · omega
    · omega
    · exact hne rfl
  lt i hi b hb := by
    have := mem_blocksOf_emptyDisk hi hb
    change b < 1048576
    omega
  not_reserved i hi b hb hres := by
    have := mem_blocksOf_emptyDisk hi hb
    have := headerBlock_emptyDisk hres
    omega
  marked i hi b hb := by
    have := mem_blocksOf_emptyDisk hi hb
    exact marked_emptyDisk b (by omega)
  reserved_lt b hb := by
    rw [headerBlock_emptyDisk hb]
    decide
  reserved_marked b hb := by
    rw [headerBlock_emptyDisk hb]
    exact marked_emptyDisk 0 (by decide)

theorem sound_emptyDisk : Sound emptyDisk emptyDiskVolume where
  mounted := mount_emptyDisk
  header := by decide
  size := by decide
  nodeSize_even := by decide
  leaves := by decide
  catalog_covers := by decide
  bitmap_covers := by decide
  leaf n hn hleaf := by
    have hn : n < 2 := hn
    interval_cases n
    · exact absurd hleaf (by decide)
    · exact leafRecords_emptyDisk
  owned := blocksOwned_emptyDisk

theorem booterSized_emptyDisk : BooterSized emptyDiskVolume emptyDisk.size where
  blockSize := Or.inr rfl
  size_lt := by decide
  nodeSize := ⟨11, rfl⟩
  nodeSize_le := by decide
  catalog_lt := by decide
  catalog_covers := by decide

theorem nameOf_emptyDisk : emptyDiskContents.nameOf emptyDiskVolume (1, 0) = [97] := by
  decide

-- Statements about the elements of a list are decided along the list, not over all words.
attribute [local instance (high)] List.decidableBAll

theorem keysPlain_emptyDisk : emptyDiskContents.KeysPlain emptyDiskVolume := by
  have hpos : ∀ pos, emptyDiskContents.IsRecord emptyDiskVolume pos → pos = (1, 0) :=
    fun pos h ↦ record_emptyDisk h.node_lt h.leaf h.index_lt
  constructor
  · intro pos h
    rw [hpos pos h, nameOf_emptyDisk]
    decide
  · intro pos h
    rw [hpos pos h, nameOf_emptyDisk]
    decide
  · intro pos pos' h h' _ _
    rw [hpos pos h, hpos pos' h']

theorem not_marked_emptyDisk (hle : 24 ≤ b) (hlt : b < 1048576) : ¬emptyDiskContents.Marked b := by
  have hmem : b / 8 / 8192 < 16 := by omega
  have hbyte : emptyDiskContents.bitmap (b / 8) = emptyDisk.byte (8192 + b / 8) := by
    have hblocks : bitmapBlocks emptyDiskVolume = List.range' 1 16 := rfl
    have hin : b / 8 < emptyDiskVolume.allocation.size := by
      change b / 8 < 131072
      omega
    rw [emptyDiskContents, contents]
    dsimp only
    rw [overlay_of_lt hin, hblocks]
    refine bytesOf_eq (byteAt_eq_some_iff.mpr ⟨1 + b / 8 / 8192, ?_, ?_⟩)
    · change (List.range' 1 16)[b / 8 / 8192]? = _
      rw [List.getElem?_range' hmem, Nat.one_mul]
    · change (1 + b / 8 / 8192) * 8192 + b / 8 % 8192 = _
      omega
  have hkeys : ∀ e ∈ emptyDiskBytes, e.1 < 8195 ∨ 139264 ≤ e.1 := by decide
  have hzero : emptyDisk.byte (8192 + b / 8) = 0 := byte_emptyDisk hkeys (by omega) (by omega)
  rw [Contents.not_marked_iff, Bitmap.getBit, decide_eq_false_iff_not, not_not, hbyte, hzero,
    UInt8.zero_and]

/-- A payload of 4 GiB. -/
def largePayload : Buf := ⟨4294967296, fun _ ↦ 66⟩

theorem createRootFile_largePayload :
    ∃ ws, createRootFile ['/', 'b'] largePayload emptyDisk = (.ok (), ws) := by
  have hcan : CanReserve emptyDiskVolume emptyDisk (stripSlashes ['/', 'b']) largePayload.size := by
    refine ⟨by decide, ?_, ⟨24, by decide, by decide, fun b hle hlt ↦ ?_⟩, by decide⟩
    · have habsent : (match findFile emptyDiskVolume emptyDisk ['/', 'b'] with
          | .error e => e.isRuntimeError
          | .ok _ => false) = true := by decide
      change ∃ e, findFile emptyDiskVolume emptyDisk ['/', 'b'] = .error e ∧ _
      cases hfind : findFile emptyDiskVolume emptyDisk ['/', 'b'] with
      | error e =>
        rw [hfind] at habsent
        exact ⟨e, rfl, habsent⟩
      | ok found =>
        rw [hfind] at habsent
        cases habsent
    · have hneeded : max 1 (ceilDiv largePayload.size emptyDiskVolume.blockSize) = 524288 := by
        decide
      exact not_marked_emptyDisk hle (by omega)
  obtain ⟨start, bm, vh, bws, dws, -, ⟨hfit, -⟩ | ⟨-, vh', -, ⟨hins, -⟩ | ⟨b', nws, hrun, -⟩⟩⟩ :=
    sound_emptyDisk.createRootFile_cases hcan
  · exact absurd (by decide) hfit
  · refine absurd ⟨by decide, by decide, ?_⟩ hins
    decide
  · exact ⟨_, hrun⟩

/-- A file of 4 GiB is created on a volume in order, and the booter cannot read it, whatever the
size of the buffer. -/
theorem large_file_not_read : ∃ ws vol',
    createRootFile ['/', 'b'] largePayload emptyDisk = (.ok (), ws) ∧
      Sound emptyDisk emptyDiskVolume ∧ BooterSized emptyDiskVolume emptyDisk.size ∧
      emptyDiskContents.KeysPlain emptyDiskVolume ∧
      Mounts (diskOf (emptyDisk.writes ws)) vol' ∧
      ¬CanRead (diskOf (emptyDisk.writes ws)) vol' (pathBytes ['/', 'b']) := by
  obtain ⟨ws, hrun⟩ := createRootFile_largePayload
  obtain ⟨vol', hmount', hread⟩ := sound_emptyDisk.created_not_read booterSized_emptyDisk
    (by decide) (by decide) le_rfl hrun (holds_diskOf _)
  exact ⟨ws, vol', hrun, sound_emptyDisk, booterSized_emptyDisk, keysPlain_emptyDisk, hmount',
    hread⟩

end CaribeOS.HfsScript
