import CaribeOS.Hfs.BooterView
import CaribeOS.Hfs.Calls

/-!
# What the booter reads after the scripts have written

`update-hfs-kernel.py` and `hfs-create-root-file.py` write images, and the booter reads them. On an
image in order, of the kind the booter is made for, the two agree: after a replacement the booter
reads the payload and all other files as before (`replaced_file_read_back`), and after a file is
created it reads that file and all others that it could read (`created_file_read_back`).

The scripts find a record by its name as it stands, the booter after a conversion and with the kind
of the record. `Contents.walk_of_pathLeads` says that both come to the same record if keys are unique
and names are ASCII. Neither comes to the first record of a leaf.
-/

namespace CaribeOS.HfsScript

open FileScript Extents ByteMemory

/-! ## Names and paths -/

/-- A path of the scripts, as the booter is given it. -/
def pathBytes (path : List Char) : List UInt8 := path.map fun ch ↦ .ofNat ch.toNat

section Keys

variable (hfs : HFSPlusImage) (c : Contents)

/-- There is a record at `pos`. -/
structure Contents.IsRecord (pos : ℕ × ℕ) : Prop where
  node_lt : pos.1 < hfs.totalNodes
  leaf : c.node pos.1 8 = 255
  index_lt : pos.2 < numRecords (c.node pos.1)

/-- The name of a record. -/
def Contents.nameOf (pos : ℕ × ℕ) : List UInt16 := recordName (c.node pos.1) (c.offset hfs pos)

/-- The folder of a record. -/
def Contents.parentOf (pos : ℕ × ℕ) : UInt32 := recordParent (c.node pos.1) (c.offset hfs pos)

/-- Names are ASCII and have at most 127 characters, and no two records have the same key. -/
structure Contents.KeysPlain : Prop where
  length : ∀ pos, c.IsRecord hfs pos → (c.nameOf hfs pos).length ≤ 127
  ascii : ∀ pos, c.IsRecord hfs pos → ∀ u ∈ c.nameOf hfs pos, u ≠ 0 ∧ u < 128
  unique : ∀ pos pos', c.IsRecord hfs pos → c.IsRecord hfs pos' →
    c.parentOf hfs pos = c.parentOf hfs pos' → c.nameOf hfs pos = c.nameOf hfs pos' → pos = pos'

end Keys

variable {name : List UInt16} {path : List Char} {parent : ℕ} {q : ScanQuery}

theorem takeWhile_ascii (hascii : ∀ u ∈ name, u ≠ 0 ∧ u < 128) :
    (name.map UInt16.toUInt8).takeWhile (· ≠ 0) = name.map UInt16.toUInt8 := by
  rw [List.takeWhile_eq_self_iff]
  intro ch hch
  obtain ⟨u, hu, rfl⟩ := List.mem_map.mp hch
  refine decide_eq_true fun hzero ↦ (hascii u hu).1 ?_
  rw [← toUInt16_toUInt8_of_lt (hascii u hu).2, hzero]
  rfl

theorem squeeze_ascii (hlen : name.length ≤ 127) (hascii : ∀ u ∈ name, u ≠ 0 ∧ u < 128) :
    squeeze name = name.map UInt16.toUInt8 := by
  have htake : name.take 127 = name := List.take_of_length_le hlen
  rw [squeeze_eq_of_ne_zero fun u hu ↦ (hascii u (htake ▸ hu)).1, htake]
  refine List.map_congr_left fun u hu ↦ ?_
  rw [CaribeOS.asciiChar, if_pos (hascii u hu).2]

theorem map_toUInt8_inj {name' : List UInt16} (h : ∀ u ∈ name, u < 128) (h' : ∀ u ∈ name', u < 128)
    (heq : name.map UInt16.toUInt8 = name'.map UInt16.toUInt8) : name = name' := by
  have hback : ∀ l : List UInt16, (∀ u ∈ l, u < 128) →
      (l.map UInt16.toUInt8).map UInt8.toUInt16 = l := by
    intro l hl
    rw [List.map_map]
    exact (List.map_congr_left fun u hu ↦ toUInt16_toUInt8_of_lt (hl u hu)).trans (List.map_id l)
  rw [← hback name h, heq, hback name' h']

theorem pathBytes_scriptName {b : ℕ → UInt8} {o : ℕ}
    (hascii : ∀ u ∈ recordName b o, u ≠ 0 ∧ u < 128) :
    pathBytes (scriptName b o) = (recordName b o).map UInt16.toUInt8 := by
  rw [pathBytes, scriptName, List.map_map]
  refine List.map_congr_left fun u hu ↦ ?_
  obtain ⟨hne, hlt⟩ := hascii u hu
  have hpos : u.toNat ≠ 0 := fun h ↦ hne (UInt16.toNat_inj.mp h)
  have hlt' : u.toNat < 128 := UInt16.lt_iff_toNat_lt.mp hlt
  have hchar : (Char.ofNat u.toNat).toNat = u.toNat := by
    rw [Char.ofNat, dif_pos (Or.inl (by omega))]
    rfl
  rw [Function.comp_apply, asciiChar, if_pos ⟨by omega, hlt'⟩, hchar, UInt8.ofNat_uInt16ToNat]

theorem pathComponents_pathBytes (hascii : ∀ ch ∈ path, ch.toNat < 128) :
    pathComponents (pathBytes path) = (path.parts '/').map pathBytes := by
  refine List.parts_map fun ch hch ↦ ?_
  have hlt := hascii ch hch
  constructor
  · intro h
    have hnat := congrArg UInt8.toNat h
    rw [UInt8.toNat_ofNat', Nat.mod_eq_of_lt (by omega)] at hnat
    exact Char.toNat_inj.mp hnat
  · rintro rfl
    rfl

/-! ## Lookups with ordered keys -/

variable {pos : ℕ × ℕ} {c : Contents} {hfs : HFSPlusImage} {img : Buf} {ws : List Write}

section Walk

variable {img : Buf} {hfs : HFSPlusImage} (s : Sound img hfs) {c : Contents}
  (hkeys : c.KeysPlain hfs)
include s

theorem Sound.isRecord_of_visited (h : c.Visited hfs pos) : c.IsRecord hfs pos :=
  ⟨h.le_last.trans_lt s.leaves, h.leaf, h.index_lt⟩

include hkeys

theorem Sound.child_eq_some (hvisited : c.Visited hfs pos) (htakes : c.Takes hfs q pos) :
    c.child hfs q = some pos := by
  have hmem : pos ∈ c.visits hfs := s.mem_visits_iff.mpr hvisited
  cases hchild : c.child hfs q with
  | none =>
    have hnot := List.find?_eq_none.mp hchild pos hmem
    exact absurd (decide_eq_true htakes) hnot
  | some found =>
    -- both have the key that is asked for
    obtain ⟨hvisited', htakes'⟩ := s.child_spec hchild
    have hrecord := s.isRecord_of_visited hvisited
    have hrecord' := s.isRecord_of_visited hvisited'
    have hname : ∀ p, c.IsRecord hfs p →
        squeeze (recordName (c.node p.1) (c.offset hfs p)) = (c.nameOf hfs p).map UInt16.toUInt8 :=
      fun p hp ↦ squeeze_ascii (hkeys.length p hp) (hkeys.ascii p hp)
    rw [hkeys.unique found pos hrecord' hrecord (htakes'.1.trans htakes.1.symm)]
    refine map_toUInt8_inj (fun u hu ↦ (hkeys.ascii found hrecord' u hu).2)
      (fun u hu ↦ (hkeys.ascii pos hrecord u hu).2) ?_
    rw [← hname found hrecord', ← hname pos hrecord, htakes'.2.1, htakes.2.1]

theorem Sound.takes_of_keyIs {name : List Char} (hvisited : c.Visited hfs pos)
    (hkey : c.KeyIs hfs parent name pos) (hparent : q.parent = .ofNat parent)
    (htarget : q.target = (pathBytes name).take 127)
    (hwanted : IsWanted (c.node pos.1) (c.offset hfs pos) q) : c.Takes hfs q pos := by
  have hrecord := s.isRecord_of_visited hvisited
  have hlen := hkeys.length pos hrecord
  have hascii := hkeys.ascii pos hrecord
  obtain ⟨hp, hn⟩ := hkey
  have hbytes : pathBytes name = (c.nameOf hfs pos).map UInt16.toUInt8 := by
    rw [← hn]
    exact pathBytes_scriptName hascii
  refine ⟨?_, ?_, hwanted⟩
  · rw [hparent, ← hp, UInt32.ofNat_toNat]
  · rw [htarget, hbytes, List.take_of_length_le (by rw [List.length_map]; exact hlen),
      takeWhile_ascii hascii]
    exact squeeze_ascii hlen hascii

/-- **Both come to the same record**: where the scripts are led by the names of a path, the booter is
led by the same names. -/
theorem Sound.walk_of_pathLeads {names : List (List Char)} (h : c.PathLeads hfs parent names pos) :
    c.walk hfs (.ofNat parent) (names.map pathBytes) = some pos := by
  induction h with
  | file hvisited hkey htype =>
    exact s.child_eq_some hkeys hvisited
      (s.takes_of_keyIs hkeys hvisited hkey rfl rfl (Or.inr ⟨htype, rfl⟩))
  | @folder parent name names dir pos hvisited hkey htype hleads ih =>
    have hne : names.map pathBytes ≠ [] := by
      cases hleads <;> exact List.cons_ne_nil _ _
    have hchild : c.child hfs (folderQuery (.ofNat parent) ((pathBytes name).take 127)) = some dir :=
      s.child_eq_some hkeys hvisited
        (s.takes_of_keyIs hkeys hvisited hkey rfl rfl (Or.inl ⟨htype, rfl⟩))
    rw [List.map_cons, Contents.walk_cons _ _ _ _ hne, hchild, Option.bind_some]
    have hid : c.folderNumber hfs dir = .ofNat (c.folderId hfs dir) := by
      rw [Contents.folderId, UInt32.ofNat_toNat]
      rfl
    rw [hid]
    exact ih

end Walk

/-! ## The same file on two disks -/

section TwoDisks

variable (disk disk' : Disk) (vol vol' : HfsVolume) (path : List UInt8)

/-- The booter mounts the volume. -/
def Mounts (vol : HfsVolume) : Prop := ∀ secbuf m, (hfsplusMount disk secbuf m).1 = some vol

/-- The booter reads the payload, wherever it is told to and whatever is in memory. -/
def Delivers (payload : Buf) : Prop :=
  ∀ (secbuf dst cap : UInt32) (m : Mem), payload.size ≤ cap.toNat →
    Apart dst cap.toNat secbuf 8192 → ∃ m', hfsplusReadFile disk vol secbuf path dst cap m
        = (some (.ofNat payload.size), m') ∧
      ∀ k < payload.size, m' (dst + .ofNat k) = payload.byte k

/-- The booter can read the file, into some buffer. -/
def CanRead : Prop :=
  ∃ (secbuf dst cap : UInt32) (m : Mem), (hfsplusReadFile disk vol secbuf path dst cap m).1 ≠ none

/-- The booter reads the same from both disks: it fails on both, or it delivers the same bytes. -/
def ReadsSame : Prop :=
  ∀ (secbuf dst cap : UInt32) (m : Mem), Apart dst cap.toNat secbuf 8192 →
    (hfsplusReadFile disk' vol' secbuf path dst cap m).1
        = (hfsplusReadFile disk vol secbuf path dst cap m).1 ∧
      ∀ n, (hfsplusReadFile disk vol secbuf path dst cap m).1 = some n → ∀ k < n.toNat,
        (hfsplusReadFile disk' vol' secbuf path dst cap m).2 (dst + .ofNat k)
          = (hfsplusReadFile disk vol secbuf path dst cap m).2 (dst + .ofNat k)

variable {disk disk' vol vol' path} {img img' payload : Buf} {hfs hfs' : HFSPlusImage}
  {pos : ℕ × ℕ}

theorem View.delivers (v : View disk vol img hfs)
    (hwalk : (contents hfs img).walk hfs 2 (pathComponents path) = some pos)
    (hpos : 0 < payload.size)
    (hsize : ((contents hfs img).dataFork hfs pos).size.toNat = payload.size)
    (hcovered : payload.size ≤ ((contents hfs img).blocksOf hfs (.data pos)).length * hfs.blockSize)
    (hbytes : ∀ k < payload.size, bytesOf hfs.blockSize
      ((contents hfs img).blocksOf hfs (.data pos)) img k = payload.byte k) :
    Delivers disk vol path payload := by
  intro secbuf dst cap m hcap hapart
  have hread : (contents hfs img).Readable hfs cap.toNat pos := by
    constructor
    · rw [hsize]
      exact hpos
    · rw [hsize]
      exact hcap
    · rw [hsize]
      exact hcovered
  obtain ⟨m', hrun, hdst⟩ := v.readFile_some hwalk hread hapart m
  refine ⟨m', ?_, fun k hk ↦ ?_⟩
  · rw [hrun, ← hsize, UInt32.ofNat_uInt64ToNat]
  · rw [hdst k (by rw [hsize]; exact hk), hbytes k hk]

theorem View.walk_of_canRead (v : View disk vol img hfs) (h : CanRead disk vol path) :
    ∃ pos, (contents hfs img).walk hfs 2 (pathComponents path) = some pos := by
  obtain ⟨secbuf, dst, cap, m, hread⟩ := h
  rw [← Option.isSome_iff_exists, Option.isSome_iff_ne_none]
  exact fun hnone ↦ hread (v.readFile_none hnone)

theorem View.readsSame (v : View disk vol img hfs) (v' : View disk' vol' img' hfs')
    (hwalk : (contents hfs img).walk hfs 2 (pathComponents path) = some pos)
    (hwalk' : (contents hfs' img').walk hfs' 2 (pathComponents path) = some pos)
    (hfork : (contents hfs' img').dataFork hfs' pos = (contents hfs img).dataFork hfs pos)
    (hbs : hfs'.blockSize = hfs.blockSize)
    (hbytes : bytesOf hfs.blockSize ((contents hfs img).blocksOf hfs (.data pos)) img'
      = bytesOf hfs.blockSize ((contents hfs img).blocksOf hfs (.data pos)) img) :
    ReadsSame disk disk' vol vol' path := by
  intro secbuf dst cap m hapart
  have hblocks : (contents hfs' img').blocksOf hfs' (.data pos)
      = (contents hfs img).blocksOf hfs (.data pos) := by
    refine List.ext_getElem? fun n ↦ ?_
    rw [← Contents.forkBlock_dataFork, hfork, Contents.forkBlock_dataFork]
  have hiff : (contents hfs' img').Readable hfs' cap.toNat pos ↔
      (contents hfs img).Readable hfs cap.toNat pos := by
    constructor
    · rintro ⟨hne, hle, hcovered⟩
      rw [hfork] at hne hle hcovered
      rw [hblocks, hbs] at hcovered
      exact ⟨hne, hle, hcovered⟩
    · rintro ⟨hne, hle, hcovered⟩
      rw [← hfork] at hne hle hcovered
      rw [← hblocks, ← hbs] at hcovered
      exact ⟨hne, hle, hcovered⟩
  by_cases hread : (contents hfs img).Readable hfs cap.toNat pos
  · obtain ⟨m₁, hrun, hdst⟩ := v.readFile_some hwalk hread hapart m
    obtain ⟨m₂, hrun', hdst'⟩ := v'.readFile_some hwalk' (hiff.mpr hread) hapart m
    rw [hfork] at hrun' hdst'
    rw [hrun, hrun']
    refine ⟨rfl, fun n hn k hk ↦ ?_⟩
    obtain rfl := Option.some_inj.mp hn
    have hlt : k < ((contents hfs img).dataFork hfs pos).size.toNat :=
      hk.trans_le (by rw [UInt64.toNat_toUInt32]; exact Nat.mod_le _ _)
    dsimp only
    rw [hdst' k hlt, hdst k hlt, hblocks, hbs, hbytes]
  · rw [v.readFile_of_not_readable hwalk hread,
      v'.readFile_of_not_readable hwalk' (hiff.not.mpr hread)]
    exact ⟨rfl, fun n hn ↦ absurd hn (Option.some_ne_none n).symm⟩

end TwoDisks

/-- A walk that succeeds comes to the same record in other contents, if all lookups on the way do. -/
theorem Contents.walk_mono {hfs' : HFSPlusImage} {c' : Contents}
    (hchild : ∀ q p, c.child hfs q = some p → c'.child hfs' q = some p)
    (hfolder : ∀ parent name p, c.child hfs (folderQuery parent name) = some p →
      c'.folderNumber hfs' p = c.folderNumber hfs p) {parent : UInt32} {names : List (List UInt8)}
    (h : c.walk hfs parent names = some pos) : c'.walk hfs' parent names = some pos := by
  induction names generalizing parent with
  | nil => exact h
  | cons name names ih =>
    cases names with
    | nil => exact hchild _ _ h
    | cons next names =>
      obtain ⟨dir, hdir, hrest⟩ := Option.bind_eq_some_iff.mp h
      rw [Contents.walk_cons _ _ _ _ (List.cons_ne_nil _ _), hchild _ _ hdir, Option.bind_some,
        hfolder _ _ _ hdir]
      exact ih hrest

/-! ## After a replacement -/

namespace RecordWritten

variable {hfs : HFSPlusImage} {c c' : Contents} {pos p : ℕ × ℕ} {b' : ℕ → UInt8} {size : ℕ}
  {extents : List (ℕ × ℕ)} (h : RecordWritten hfs c c' pos b' size extents)
include h

theorem visits_eq (s : Sound img hfs) : c'.visits hfs = c.visits hfs := by
  have hfirst := s.firstLeaf_le
  have hleaves := s.leaves
  refine List.flatMap_congr fun n hn ↦ ?_
  rw [List.mem_range'_1] at hn
  rw [visitedRecords, visitedRecords, h.kind_eq]
  by_cases hkind : c.node n 8 = 255
  · rw [(h.sameKeys (by omega) hkind).num]
  · rw [if_neg hkind, if_neg hkind]

theorem takes_iff (hn : p.1 < hfs.totalNodes) (hkind : c.node p.1 8 = 255)
    (hindex : p.2 < numRecords (c.node p.1)) (q : ScanQuery) :
    c'.Takes hfs q p ↔ c.Takes hfs q p := by
  have hsame := h.sameRecord hn hkind hindex
  rw [Contents.Takes, Contents.Takes, h.offset_eq hn hkind hindex, hsame.parent, hsame.name,
    IsWanted, hsame.type, IsWanted]

/-- **Scans** end where they did. -/
theorem child_eq (s : Sound img hfs) (q : ScanQuery) : c'.child hfs q = c.child hfs q := by
  rw [Contents.child, h.visits_eq s, Contents.child]
  refine List.find?_congr fun p hp ↦ ?_
  have hvisited := s.mem_visits_iff.mp hp
  exact decide_eq_decide.mpr
    (h.takes_iff (hvisited.le_last.trans_lt s.leaves) hvisited.leaf hvisited.index_lt q)

theorem folderNumber_eq (s : Sound img hfs) {parent : UInt32} {name : List UInt8}
    (hchild : c.child hfs (folderQuery parent name) = some p) :
    c'.folderNumber hfs p = c.folderNumber hfs p := by
  obtain ⟨hvisited, htakes⟩ := s.child_spec hchild
  have hn := hvisited.le_last.trans_lt s.leaves
  have htype := htakes.folder
  have hne : p ≠ pos := by
    rintro rfl
    exact absurd (htype.symm.trans h.file.file) (by decide)
  have hend := recordEnd_folder htype
  have hdata : c.dataOffset hfs p = c.offset hfs p + 2 + _ := rfl
  rw [← Contents.dataOffset] at hend
  rw [Contents.folderNumber, h.dataOffset_eq hn hvisited.leaf hvisited.index_lt,
    Contents.folderNumber, be32_congr fun k hle hlt ↦
      h.byte_eq_of_ne hn hvisited.leaf hvisited.index_lt hne (by omega) (by omega)]

theorem dataFork_of_ne (hfile : c.IsFile hfs p) (hne : p ≠ pos) :
    c'.dataFork hfs p = c.dataFork hfs p := by
  rw [Contents.dataFork, h.dataOffset_eq hfile.node_lt hfile.leaf hfile.index_lt,
    Contents.dataFork, forkData_congr fun k hle hlt ↦
      h.byte_eq hfile (by omega) (by omega) (Or.inl hne)]

theorem dataFork_size : (c'.dataFork hfs pos).size.toNat = size := by
  rw [Contents.dataFork, h.dataOffset_eq h.file.node_lt h.file.leaf h.file.index_lt, h.node,
    Function.update_self]
  exact h.written.size

end RecordWritten

/-- After a call: the image is in order, the record at `pos` has blocks with the payload, and the data
of all other files is as it was. -/
structure Stored (img img' : Buf) (hfs : HFSPlusImage) (pos : ℕ × ℕ) (payload : Buf) : Prop where
  sound : ∃ free, Sound img' { hfs with freeBlocks := free }
  size : img'.size = img.size
  covered : payload.size ≤ ((contents hfs img').blocksOf hfs (.data pos)).length * hfs.blockSize
  data : ∀ k < payload.size,
    bytesOf hfs.blockSize ((contents hfs img').blocksOf hfs (.data pos)) img' k = payload.byte k
  others : ∀ p, (contents hfs img).IsFile hfs p → p ≠ pos →
    bytesOf hfs.blockSize ((contents hfs img).blocksOf hfs (.data p)) img'
      = bytesOf hfs.blockSize ((contents hfs img).blocksOf hfs (.data p)) img

theorem Stored.booterSized {img' payload : Buf} (h : Stored img img' hfs pos payload)
    (hb : BooterSized hfs img.size) (free : ℕ) :
    BooterSized { hfs with freeBlocks := free } img'.size := by
  rw [h.size]
  exact ⟨hb.blockSize, hb.size_lt, hb.nodeSize, hb.nodeSize_le, hb.catalog_lt, hb.catalog_covers⟩

/-- The blocks that a call writes to, if it puts data to the blocks of `run`. -/
def WrittenBlock (hfs : HFSPlusImage) (run : List ℕ) (b : ℕ) : Prop :=
  HeaderBlock hfs.blockSize b ∨ b ∈ bitmapBlocks hfs ∨ b ∈ catalogBlocks hfs ∨ b ∈ run

section Effect

variable {img payload vh : Buf} {hfs : HFSPlusImage} {pos : ℕ × ℕ} {extents : List (ℕ × ℕ)}
  {dws nws bws : List Write} {b' bm : ℕ → UInt8} {run : List ℕ}

theorem Touches.written {S : ℕ → Prop} (h : Touches (blockRegion hfs.blockSize S) ws)
    (hS : ∀ b, S b → WrittenBlock hfs run b) :
    Touches (blockRegion hfs.blockSize (WrittenBlock hfs run)) ws := h.mono fun _ hx ↦ hS _ hx

theorem Stores.bytesOf_eq {f : Buf} (h : Stores hfs c payload pos extents dws nws b')
    (g : Geometry hfs f.size) (havoids : Avoids hfs (· ∈ blocks extents)) {k : ℕ}
    (hk : k < payload.size) :
    bytesOf hfs.blockSize (blocks extents) (f.writes (dws ++ nws)) k = payload.byte k := by
  have g' : Geometry hfs (f.writes dws).size := (g.writes_size havoids h.touches).symm ▸ g
  rw [Buf.writes_append, g'.bytesOf_writes (S := (· ∈ catalogBlocks hfs)) havoids.lt
    (fun b hb hcat ↦ havoids.catalog b hcat hb) (h.puts.all.touches g.blockSize_pos)]
  exact h.data f (fun a ha ↦ g.lt_size (havoids.lt _ ha)) k hk

theorem Stores.touches_written (h : Stores hfs c payload pos extents dws nws b')
    (hbs : 0 < hfs.blockSize) :
    Touches (blockRegion hfs.blockSize (WrittenBlock hfs (blocks extents))) (dws ++ nws) :=
  (Touches.written h.touches fun _ hb ↦ Or.inr (Or.inr (Or.inr hb))).append
    (Touches.written (h.puts.all.touches hbs) fun _ hb ↦ Or.inr (Or.inr (Or.inl hb)))

theorem Sound.bytesOf_kept (s : Sound img hfs)
    (h : Touches (blockRegion hfs.blockSize (WrittenBlock hfs run)) ws)
    (hfile : (contents hfs img).IsFile hfs pos)
    (hrun : ∀ b ∈ (contents hfs img).blocksOf hfs (.data pos), b ∉ run) :
    bytesOf hfs.blockSize ((contents hfs img).blocksOf hfs (.data pos)) (img.writes ws)
      = bytesOf hfs.blockSize ((contents hfs img).blocksOf hfs (.data pos)) img := by
  have havoids := s.avoids_data hfile
  refine s.geometry.bytesOf_writes havoids.lt (fun b hb ↦ ?_) h
  rintro (hheader | hbitmap | hcatalog | hmem)
  · exact havoids.header b hb hheader
  · exact havoids.bitmap b hbitmap hb
  · exact havoids.catalog b hcatalog hb
  · exact hrun b hb hmem

/-- **What a replacement does**, if it succeeds. -/
theorem Sound.replaced (s : Sound img hfs) {allowGrow : Bool} {alloc : ℕ}
    (hrun : updateImage path payload allowGrow img = (.ok alloc, ws)) :
    ∃ pos b' extents, (contents hfs img).PathLeads hfs 2 (path.parts '/') pos ∧
      RecordWritten hfs (contents hfs img) (contents hfs (img.writes ws)) pos b' payload.size
        extents ∧ Stored img (img.writes ws) hfs pos payload := by
  obtain ⟨pos, hvisited, hfile, hpath, ⟨hroom, dws, nws, b', rfl, hstores⟩ | ⟨start, bm, vh, bws, free,
    dws, nws, b', rfl, hreserves, hcount, hheader, hputs, hstores⟩⟩ := s.updateImage_cases hrun
  · -- in place: the blocks are those of the file
    have hblocks := (contents hfs img).blocks_forkOf hfs pos
    obtain ⟨hsize, hcontents⟩ := s.contents_inPlace hvisited hfile hblocks hstores
    have hwritten : RecordWritten hfs (contents hfs img) (contents hfs (img.writes (dws ++ nws)))
        pos b' payload.size ((contents hfs img).forkOf hfs pos).extents :=
      ⟨hstores.written, by rw [hcontents], s.leaf, hfile⟩
    have havoids : Avoids hfs (· ∈ blocks ((contents hfs img).forkOf hfs pos).extents) := by
      rw [hblocks]
      exact s.avoids_data hfile
    refine ⟨pos, b', _, hpath, hwritten, ⟨hfs.freeBlocks, s.inPlace hsize hcontents hwritten hblocks⟩,
      hsize, ?_, fun k hk ↦ ?_, fun p hp hne ↦ ?_⟩
    · rw [hwritten.blocksOf_data, ← allocatedBlocks_eq]
      exact hroom
    · rw [hwritten.blocksOf_data]
      exact hstores.bytesOf_eq s.geometry havoids hk
    · refine s.bytesOf_kept (hstores.touches_written s.blockSize_pos) hp fun b hb ↦ ?_
      rw [hblocks]
      exact s.owned.disjoint (.data p) (.data pos) hp hfile
        (fun heq ↦ hne (ForkId.data.inj heq)) b hb
  · -- moved: the blocks were free
    obtain ⟨hsize, hcontents⟩ := s.contents_moved hvisited hfile hheader hreserves hputs.all hstores
    have hwritten : RecordWritten hfs (contents hfs img)
        (contents hfs (img.writes (⟨1024, vh⟩ :: bws ++ (dws ++ nws)))) pos b' payload.size
        [(start, ceilDiv payload.size hfs.blockSize)] :=
      ⟨hstores.written, by rw [hcontents], s.leaf, hfile⟩
    have hblocks : blocks [(start, ceilDiv payload.size hfs.blockSize)]
        = List.range' start (ceilDiv payload.size hfs.blockSize) := List.append_nil _
    have havoids : Avoids hfs (· ∈ blocks [(start, ceilDiv payload.size hfs.blockSize)]) := by
      rw [hblocks]
      exact s.avoids_free hreserves.free
    obtain ⟨hsize₁, -⟩ := s.contents_reserved hheader hreserves hputs.all
    have g₁ : Geometry hfs (img.writes (⟨1024, vh⟩ :: bws)).size := hsize₁.symm ▸ s.geometry
    refine ⟨pos, b', _, hpath, hwritten, ⟨free, s.moved hsize hcontents hwritten hheader hreserves⟩,
      hsize, ?_, fun k hk ↦ ?_, fun p hp hne ↦ ?_⟩
    · rw [hwritten.blocksOf_data, hblocks, List.length_range']
      exact le_ceilDiv_mul s.blockSize_pos
    · rw [hwritten.blocksOf_data, Buf.writes_append]
      exact hstores.bytesOf_eq g₁ havoids hk
    · have htouches : Touches (blockRegion hfs.blockSize (WrittenBlock hfs
          (blocks [(start, ceilDiv payload.size hfs.blockSize)])))
          (⟨1024, vh⟩ :: bws ++ (dws ++ nws)) := by
        refine Touches.append ?_ (hstores.touches_written s.blockSize_pos)
        exact (Touches.written (s.geometry.touches_header hheader.size) fun _ ↦ Or.inl).append
          (Touches.written (hputs.all.touches s.blockSize_pos) fun _ hb ↦ Or.inr (Or.inl hb))
      refine s.bytesOf_kept htouches hp fun b hb hmem ↦ ?_
      rw [hblocks] at hmem
      exact (hreserves.free b hmem).2 (s.owned.marked (.data p) hp b hb)

end Effect

/-- A volume with a file has nodes of at least a sector. -/
theorem Sound.nodeSize_ge (s : Sound img hfs) {size : ℕ} (hb : BooterSized hfs size)
    (hfile : (contents hfs img).IsFile hfs pos) : 512 ≤ hfs.nodeSize := by
  obtain ⟨hstart, hend⟩ := s.dataOffset_le hfile
  obtain ⟨e, he⟩ := hb.nodeSize
  have hlt : 2 ^ 8 < 2 ^ e := by
    omega
  rw [he]
  exact Nat.pow_le_pow_right Nat.two_pos ((Nat.pow_lt_pow_iff_right Nat.one_lt_two).mp hlt)

/-- **A replaced file is read back.** After a successful replacement, the booter reads the payload, and
it reads every other file as before. -/
theorem replaced_file_read_back {img payload : Buf} {hfs : HFSPlusImage} {path : List Char}
    {allowGrow : Bool} {alloc : ℕ} {ws : List Write} {disk disk' : Disk} (s : Sound img hfs)
    (hb : BooterSized hfs img.size) (hkeys : (contents hfs img).KeysPlain hfs)
    (hascii : ∀ ch ∈ path, ch.toNat < 128) (hpayload : 0 < payload.size)
    (hrun : updateImage path payload allowGrow img = (.ok alloc, ws)) (hdisk : Holds disk img)
    (hdisk' : Holds disk' (img.writes ws)) :
    ∃ vol vol', Mounts disk vol ∧ Mounts disk' vol' ∧
      Delivers disk' vol' (pathBytes path) payload ∧
      ∃ pos, (contents hfs img).walk hfs 2 (pathComponents (pathBytes path)) = some pos ∧
        ∀ other p, (contents hfs img).walk hfs 2 (pathComponents other) = some p → p ≠ pos →
          ReadsSame disk disk' vol vol' other := by
  obtain ⟨pos, b', extents, hpath, hwritten, hstored⟩ := s.replaced hrun
  obtain ⟨free, s'⟩ := hstored.sound
  have hnode := s.nodeSize_ge hb hwritten.file
  have hb' := hstored.booterSized hb free
  obtain ⟨vol, v, hmount⟩ := s.view hb hnode hdisk
  obtain ⟨vol', v', hmount'⟩ := s'.view hb' hnode hdisk'
  -- paths lead to the same records before and after
  have hwalks : ∀ {names p}, (contents hfs img).walk hfs 2 names = some p →
      (contents hfs (img.writes ws)).walk { hfs with freeBlocks := free } 2 names = some p := by
    intro names p hw
    refine Contents.walk_mono (fun q found hq ↦ ?_) (fun parent name found hq ↦ ?_) hw
    · exact (hwritten.child_eq s q).trans hq
    · exact hwritten.folderNumber_eq s hq
  have hwalk : (contents hfs img).walk hfs 2 (pathComponents (pathBytes path)) = some pos := by
    rw [pathComponents_pathBytes hascii]
    exact s.walk_of_pathLeads hkeys hpath
  refine ⟨vol, vol', hmount, hmount', ?_, pos, hwalk, fun other p hother hne ↦ ?_⟩
  · exact v'.delivers (hwalks hwalk) hpayload hwritten.dataFork_size hstored.covered hstored.data
  · have hp := (v.isFile_of_walk hother).2
    exact v.readsSame v' hother (hwalks hother) (hwritten.dataFork_of_ne hp hne) rfl
      (hstored.others p hp hne)

/-! ### An example -/

/-- A disk with an image, on which all reads succeed. -/
def diskOf (img : Buf) : Disk := ⟨img.byte, fun _ _ ↦ true⟩

theorem holds_diskOf (img : Buf) : Holds (diskOf img) img := ⟨fun _ _ ↦ rfl, fun _ _ _ ↦ rfl⟩

theorem booterSized_threeFiles : BooterSized threeFilesVolume threeFiles.size where
  blockSize := Or.inl rfl
  size_lt := by decide
  nodeSize := ⟨11, rfl⟩
  nodeSize_le := by decide
  catalog_lt := by decide
  catalog_covers := by decide

-- Statements about the elements of a list are decided along the list, not over all words.
attribute [local instance (high)] List.decidableBAll

theorem keysPlain_threeFiles : threeFilesContents.KeysPlain threeFilesVolume := by
  have hpos : ∀ pos, threeFilesContents.IsRecord threeFilesVolume pos →
      pos = (1, 0) ∨ pos = (1, 1) ∨ pos = (1, 2) :=
    fun pos h ↦ record_threeFiles h.node_lt h.leaf h.index_lt
  constructor
  · intro pos h
    rcases hpos pos h with rfl | rfl | rfl <;> decide
  · intro pos h
    rcases hpos pos h with rfl | rfl | rfl <;> decide
  · intro pos pos' h h' hparent hname
    have hdiffer : threeFilesContents.nameOf threeFilesVolume (1, 0) = [97] ∧
        threeFilesContents.nameOf threeFilesVolume (1, 1) = [98] ∧
        threeFilesContents.nameOf threeFilesVolume (1, 2) = [99] := by decide
    obtain ⟨ha, hb, hc⟩ := hdiffer
    rcases hpos pos h with rfl | rfl | rfl <;> rcases hpos pos' h' with rfl | rfl | rfl <;>
      first | rfl | (rw [ha, hb] at hname; cases hname) | (rw [ha, hc] at hname; cases hname) |
        (rw [hb, hc] at hname; cases hname)

theorem replaced_file_read_back_threeFiles : ∃ alloc ws,
    updateImage ['/', 'b'] ⟨5000, fun _ ↦ 66⟩ true threeFiles = (.ok alloc, ws) ∧
      ∃ vol', Mounts (diskOf (threeFiles.writes ws)) vol' ∧
        Delivers (diskOf (threeFiles.writes ws)) vol' (pathBytes ['/', 'b']) ⟨5000, fun _ ↦ 66⟩ := by
  obtain ⟨alloc, hrun⟩ := exists_of_isOk
    (r := updateImage ['/', 'b'] ⟨5000, fun _ ↦ 66⟩ true threeFiles) (by decide +kernel)
  obtain ⟨-, vol', -, hmount', hdelivers, -⟩ := replaced_file_read_back sound_threeFiles
    booterSized_threeFiles keysPlain_threeFiles (by decide) (by decide) hrun (holds_diskOf _)
    (holds_diskOf _)
  exact ⟨alloc, _, hrun, vol', hmount', hdelivers⟩

end CaribeOS.HfsScript
