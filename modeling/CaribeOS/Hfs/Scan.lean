import CaribeOS.Hfs.Fork
import Mathlib.Data.List.TakeWhile

/-!
# Scanning the catalog

`catalog_scan_child` (`booter/hfsplus_boot.c`) looks for a file or a folder by its parent and name.
It reads the leaf nodes one after the other and, in each, goes through the table of record offsets
at the end of the node.

The table grows downwards: the offset of record `i` is at `nodeSize - 2 * (i + 1)`, and below the
offset of the last record stands that of the free space. The code starts at the lowest entry, the
one for the free space, and looks at `numRecords` entries, so that it never comes to the highest,
that of record `0` (`scannedSlots`).

A name is compared after `ascii_name_from_utf16be`, which turns every character outside ASCII into
`?` and drops what follows the 127th; two names of a folder can become one (`squeeze`).

`CatalogGeometry.catalogScanChild_hit` is the specification of the scan, for a file or a folder and
for nodes of any contents: it ends at the first entry that it takes for the one asked for (`Takes`).
-/

namespace CaribeOS

open ByteMemory

/-! ## Big-endian numbers -/

def be16 (b : ℕ → UInt8) (o : ℕ) : UInt16 := (b o).toUInt16 <<< 8 ||| (b (o + 1)).toUInt16

def be32 (b : ℕ → UInt8) (o : ℕ) : UInt32 :=
  (b o).toUInt32 <<< 24 ||| (b (o + 1)).toUInt32 <<< 16 ||| (b (o + 2)).toUInt32 <<< 8 |||
    (b (o + 3)).toUInt32

def be64 (b : ℕ → UInt8) (o : ℕ) : UInt64 :=
  (be32 b o).toUInt64 <<< 32 ||| (be32 b (o + 4)).toUInt64

variable {b b' : ℕ → UInt8} {o n : ℕ} {node : UInt32}

theorem be16_congr (h : ∀ k, o ≤ k → k < o + 2 → b k = b' k) : be16 b o = be16 b' o := by
  rw [be16, be16, h o (by omega) (by omega), h (o + 1) (by omega) (by omega)]

theorem be32_congr (h : ∀ k, o ≤ k → k < o + 4 → b k = b' k) : be32 b o = be32 b' o := by
  rw [be32, be32, h o (by omega) (by omega), h (o + 1) (by omega) (by omega),
    h (o + 2) (by omega) (by omega), h (o + 3) (by omega) (by omega)]

theorem be64_congr (h : ∀ k, o ≤ k → k < o + 8 → b k = b' k) : be64 b o = be64 b' o := by
  rw [be64, be64, be32_congr fun k hle hlt ↦ h k hle (by omega),
    be32_congr fun k hle hlt ↦ h k (by omega) (by omega)]

/-- The bytes of memory from an address on. -/
def bytesAt (m : Mem) (a : UInt32) (k : ℕ) : UInt8 := m (a + .ofNat k)

def rdbe16 (m : Mem) (a : UInt32) : UInt16 := be16 (bytesAt m a) 0

def rdbe32 (m : Mem) (a : UInt32) : UInt32 := be32 (bytesAt m a) 0

def rdbe64 (m : Mem) (a : UInt32) : UInt64 := be64 (bytesAt m a) 0

/-! ## Names -/

/-- One character of a name, as `ascii_name_from_utf16be` turns it into a `char`. -/
def asciiChar (ch : UInt16) : UInt8 := if ch < 128 then ch.toUInt8 else 63

/-- `ascii_name_from_utf16be`: the characters put before the terminating zero. -/
def asciiNameFromUtf16be (m : Mem) (src : UInt32) (chars : UInt16) (cap : ℕ) : List UInt8 :=
  ((List.range chars.toNat).map fun i ↦ asciiChar (rdbe16 m (src + .ofNat (2 * i)))).take (cap - 1)

/-- `s_eq`, on strings given without the terminating zero. -/
def sEq : List UInt8 → List UInt8 → Bool
  | [], [] => true
  | [], y :: _ => y = 0
  | x :: _, [] => x = 0
  | x :: xs, y :: ys =>
    if x = 0 ∨ y = 0 then x = 0 ∧ y = 0
    else if x ≠ y then false
    else sEq xs ys

/-! ## `catalog_scan_child` as it stands in the source -/

/-- The node size that the scan works with. -/
def HfsVolume.nodeSize (hfs : HfsVolume) : UInt32 :=
  if hfs.catalogNodeSize ≠ 0 then hfs.catalogNodeSize.toUInt32 else 4096

/-- `catalog_range`: the first and the last node to scan. -/
def catalogRange (hfs : HfsVolume) : UInt32 × UInt32 :=
  let total := if hfs.totalCatalogNodes = 0 then hfs.catalog.size.toUInt32 / hfs.nodeSize
    else hfs.totalCatalogNodes
  let first := hfs.firstLeafNode
  let last := hfs.lastLeafNode
  if first = 0 ∨ last = 0 ∨ total ≤ first ∨ total ≤ last ∨ last < first then
    if 1 < total then (1, total - 1) else (0, 0)
  else (first, last)

/-- `fork_from_file_record`: the data fork of a file record. -/
def forkFromFileRecord (m : Mem) (rec : UInt32) : ForkMeta where
  size := rdbe64 m (rec + 88)
  ext i := ⟨rdbe32 m (rec + .ofNat (104 + 8 * i)), rdbe32 m (rec + .ofNat (108 + 8 * i))⟩

/-- With what the scan returns `0`. -/
inductive ScanHit where
  | folder (id : UInt32)
  | file (fork : ForkMeta)

/-- Which out-parameters the caller passes (a null pointer turns the kind of record off), the parent
and the name it asks for. -/
structure ScanQuery where
  folderID : Bool
  fileFork : Bool
  parent : UInt32
  target : List UInt8

section Code

variable (q : ScanQuery) (secbuf nodeSize : UInt32) (m : Mem)

/-- One turn of the record loop, for the record at `recOff`: the value written to `*recordType`, if
any, and what the function returns with, if it does. -/
def scanRecord (recOff : UInt32) : Option UInt16 × Option ScanHit :=
  if nodeSize ≤ recOff + 8 then (none, none)
  else
    let key := secbuf + recOff
    let keyLen := rdbe16 m key
    let recParent := rdbe32 m (key + 2)
    let nameLen := rdbe16 m (key + 6)
    let dataOff := recOff + 2 + keyLen.toUInt32
    if nodeSize < dataOff + 2 then (none, none)
    else if recParent ≠ q.parent ∨ ¬sEq (asciiNameFromUtf16be m (key + 8) nameLen 128) q.target then
      (none, none)
    else
      let data := secbuf + dataOff
      let rtype := rdbe16 m data
      if rtype = 1 ∧ q.folderID then (some rtype, some (.folder (rdbe32 m (data + 8))))
      else if rtype = 2 ∧ q.fileFork then (some rtype, some (.file (forkFromFileRecord m data)))
      else (some rtype, none)

/-- The record loop over the entries `rs` of the offset table, from `idx` on. -/
def scanRecords (idx : UInt32) : List ℕ → UInt16 → UInt16 × Option ScanHit
  | [], recordType => (recordType, none)
  | r :: rs, recordType =>
    match scanRecord q secbuf nodeSize m (rdbe16 m (idx + .ofNat (2 * r))).toUInt32 with
    | (written, some hit) => (written.getD recordType, some hit)
    | (written, none) => scanRecords idx rs (written.getD recordType)

/-- The node in the staging buffer. -/
def scanNode (recordType : UInt16) : UInt16 × Option ScanHit :=
  if m (secbuf + 8) ≠ 255 then (recordType, none)
  else
    let num := rdbe16 m (secbuf + 10)
    if num = 0 ∨ nodeSize < 2 * (num.toUInt32 + 1) then (recordType, none)
    else
      scanRecords q secbuf nodeSize m (secbuf + nodeSize - 2 * (num.toUInt32 + 1))
        (List.range num.toNat) recordType

/-- The node loop. It ends at `last`, so `last - node + 1` bounds the rounds. -/
def scanNodes (disk : Disk) (hfs : HfsVolume) (last : UInt32) :
    ℕ → UInt32 → UInt16 → Mem → (UInt16 × Option ScanHit) × Mem
  | 0, _, recordType, m => ((recordType, none), m)
  | fuel + 1, node, recordType, m =>
    if last < node then ((recordType, none), m)
    else
      match forkRead disk hfs secbuf hfs.catalog (node * nodeSize) secbuf nodeSize m with
      | (false, m) => ((recordType, none), m)
      | (true, m) =>
        match scanNode q secbuf nodeSize m recordType with
        | (recordType, some hit) => ((recordType, some hit), m)
        | (recordType, none) =>
          if node = last then ((recordType, none), m)
          else scanNodes disk hfs last fuel (node + 1) recordType m

end Code

/-- `catalog_scan_child`: the final `*recordType`, and what it returns `0` with (`none` for
`-1`). -/
def catalogScanChild (disk : Disk) (hfs : HfsVolume) (secbuf : UInt32) (q : ScanQuery)
    (recordType : UInt16) (m : Mem) : (UInt16 × Option ScanHit) × Mem :=
  if hfsNodeBufSize < hfs.nodeSize then ((recordType, none), m)
  else
    scanNodes q secbuf hfs.nodeSize disk hfs (catalogRange hfs).2
      (((catalogRange hfs).2 - (catalogRange hfs).1).toNat + 1) (catalogRange hfs).1 recordType m

/-! ## What a catalog holds -/

/-- What a name becomes before it is compared. -/
def squeeze (name : List UInt16) : List UInt8 := ((name.map asciiChar).take 127).takeWhile (· ≠ 0)

section Node

variable (b : ℕ → UInt8) (n : ℕ)

def numRecords : ℕ := (be16 b 10).toNat

/-- The offset of record `i` of a node of `n` bytes; for `i = numRecords`, of the free space. -/
def recordOffset (i : ℕ) : ℕ := (be16 b (n - 2 * (i + 1))).toNat

theorem recordOffset_lt (i : ℕ) : recordOffset b n i < 65536 := UInt16.toNat_lt _

variable (o : ℕ)

/-- The fields of the record at offset `o`. -/
def recordKeyLength : ℕ := (be16 b o).toNat

def recordParent : UInt32 := be32 b (o + 2)

def recordName : List UInt16 :=
  (List.range (be16 b (o + 6)).toNat).map fun j ↦ be16 b (o + 8 + 2 * j)

def recordData : ℕ := o + 2 + recordKeyLength b o

def recordType : UInt16 := be16 b (recordData b o)

def recordFork : ForkMeta where
  size := be64 b (recordData b o + 88)
  ext i := ⟨be32 b (recordData b o + (104 + 8 * i)), be32 b (recordData b o + (108 + 8 * i))⟩

/-- The record at `o` is of the kind asked for. -/
def IsWanted (q : ScanQuery) : Prop :=
  (recordType b o = 1 ∧ q.folderID) ∨ (recordType b o = 2 ∧ q.fileFork)
  deriving Decidable

/-- What the scan needs of a record of the kind asked for to be inside the node: the name and the
fields that it reads. -/
def SlotInside (q : ScanQuery) : Prop :=
  recordData b o + 2 ≤ n → IsWanted b o q →
    o + 8 + 2 * (recordName b o).length ≤ n ∧ (recordType b o = 1 → recordData b o + 12 ≤ n) ∧
      (recordType b o = 2 → recordData b o + 168 ≤ n)

/-- A record inside its node: the name inside the key, the key and the record type inside the node,
and a file record inside it as a whole. -/
structure RecordInside : Prop where
  name : 6 + 2 * (recordName b o).length ≤ recordKeyLength b o
  type : recordData b o + 2 ≤ n
  file : recordType b o = 2 → recordData b o + 248 ≤ n

/-- A leaf as HFS+ lays it out. -/
structure LeafLayout : Prop where
  table : 2 * (numRecords b + 1) ≤ n
  offset : ∀ i ≤ numRecords b, 14 ≤ recordOffset b n i
  record : ∀ i < numRecords b, RecordInside b n (recordOffset b n i)
  even : 2 ∣ recordOffset b n (numRecords b)
  free_le : recordOffset b n (numRecords b) ≤ n - 2 * (numRecords b + 1)
  free : ∀ k, recordOffset b n (numRecords b) ≤ k → k < n - 2 * (numRecords b + 1) → b k = 0

end Node

/-! ## Reading the staging buffer -/

/-- The bytes of the node `b` stand in the staging buffer. -/
def Staged (m : Mem) (secbuf : UInt32) (n : ℕ) (b : ℕ → UInt8) : Prop :=
  ∀ k < n, m (secbuf + .ofNat k) = b k

section Staged

variable {m : Mem} {secbuf : UInt32} {n : ℕ} {b : ℕ → UInt8} (hview : Staged m secbuf n b)
include hview

theorem Staged.bytesAt_add {k : ℕ} (h : o + k < n) :
    bytesAt m (secbuf + .ofNat o) k = b (o + k) := by
  rw [bytesAt, add_ofNat_add, hview _ h]

theorem Staged.rdbe16 (h : o + 2 ≤ n) : rdbe16 m (secbuf + .ofNat o) = be16 b o := by
  rw [CaribeOS.rdbe16, be16, be16, hview.bytesAt_add (by omega), hview.bytesAt_add (by omega)]
  rfl

theorem Staged.rdbe32 (h : o + 4 ≤ n) : rdbe32 m (secbuf + .ofNat o) = be32 b o := by
  rw [CaribeOS.rdbe32, be32, be32, hview.bytesAt_add (by omega), hview.bytesAt_add (by omega),
    hview.bytesAt_add (by omega), hview.bytesAt_add (by omega)]
  rfl

theorem Staged.rdbe64 (h : o + 8 ≤ n) : rdbe64 m (secbuf + .ofNat o) = be64 b o := by
  have hhi := hview.rdbe32 (by omega : o + 4 ≤ n)
  have hlo := hview.rdbe32 (by omega : o + 4 + 4 ≤ n)
  rw [CaribeOS.rdbe32] at hhi hlo
  rw [CaribeOS.rdbe64, be64, be64, hhi, ← hlo]
  simp only [be32, bytesAt, add_ofNat_add, Nat.add_assoc]

end Staged

/-! ## One record -/

/-- `s_eq` compares what stands before the first zero. -/
theorem sEq_iff (xs ys : List UInt8) :
    sEq xs ys = true ↔ xs.takeWhile (· ≠ 0) = ys.takeWhile (· ≠ 0) := by
  induction xs generalizing ys with
  | nil =>
    cases ys with
    | nil => simp [sEq]
    | cons y ys => by_cases hy : y = 0 <;> simp [sEq, hy]
  | cons x xs ih =>
    cases ys with
    | nil => by_cases hx : x = 0 <;> simp [sEq, hx]
    | cons y ys =>
      by_cases hx : x = 0
      · by_cases hy : y = 0 <;> simp [sEq, hx, hy]
      · by_cases hy : y = 0
        · simp [sEq, hx, hy]
        · by_cases hxy : x = y
          · simp [sEq, hy, hxy, ih]
          · simp [sEq, hx, hy, hxy]

/-- The query for a file. -/
def fileQuery (parent : UInt32) (target : List UInt8) : ScanQuery := ⟨false, true, parent, target⟩

/-- The query for a folder. -/
def folderQuery (parent : UInt32) (target : List UInt8) : ScanQuery := ⟨true, false, parent, target⟩

/-- The scan takes the record at `o` for the one asked for: the parent is right, the name is after
the conversion, and it is a folder or a file as wanted. -/
def Takes (q : ScanQuery) (b : ℕ → UInt8) (n o : ℕ) : Prop :=
  o + 8 < n ∧ recordData b o + 2 ≤ n ∧ recordParent b o = q.parent ∧
    squeeze (recordName b o) = q.target.takeWhile (· ≠ 0) ∧ IsWanted b o q
  deriving Decidable

/-- What the record at `o` contributes to the scan. -/
def hitAt (q : ScanQuery) (b : ℕ → UInt8) (n o : ℕ) : Option ScanHit :=
  if Takes q b n o then
    if recordType b o = 1 then some (.folder (be32 b (recordData b o + 8)))
    else some (.file (recordFork b o))
  else none

variable {q : ScanQuery}

theorem hitAt_eq_none_iff : hitAt q b n o = none ↔ ¬Takes q b n o := by
  rw [hitAt]
  split_ifs with htakes htype
  · exact ⟨False.elim, fun h ↦ absurd htakes h⟩
  · exact ⟨False.elim, fun h ↦ absurd htakes h⟩
  · exact ⟨fun _ ↦ htakes, fun _ ↦ rfl⟩

section Record

variable {m : Mem} {secbuf nodeSize : UInt32} {b : ℕ → UInt8} {o : ℕ}

theorem Staged.asciiName (hview : Staged m secbuf n b)
    (hname : o + 8 + 2 * (recordName b o).length ≤ n) :
    asciiNameFromUtf16be m (secbuf + .ofNat (o + 8)) (be16 b (o + 6)) 128
      = ((recordName b o).map asciiChar).take 127 := by
  rw [recordName, List.length_map, List.length_range] at hname
  rw [asciiNameFromUtf16be, recordName, List.map_map]
  congr 1
  refine List.map_congr_left fun j hj ↦ ?_
  rw [List.mem_range] at hj
  rw [add_ofNat_add, hview.rdbe16 (by omega), Function.comp_apply]

theorem Staged.forkFromFileRecord (hview : Staged m secbuf n b) (hfile : recordData b o + 168 ≤ n) :
    forkFromFileRecord m (secbuf + .ofNat (recordData b o)) = recordFork b o := by
  have hsize : CaribeOS.rdbe64 m (secbuf + .ofNat (recordData b o) + 88)
      = be64 b (recordData b o + 88) := by
    rw [add_ofNat_lit]
    exact hview.rdbe64 (by omega)
  have hext : (CaribeOS.forkFromFileRecord m (secbuf + .ofNat (recordData b o))).ext
      = (recordFork b o).ext := by
    funext i
    dsimp only [CaribeOS.forkFromFileRecord, recordFork]
    rw [add_ofNat_add, add_ofNat_add, hview.rdbe32 (by omega), hview.rdbe32 (by omega)]
  exact congrArg₂ ForkMeta.mk hsize hext

theorem ofNat_recordData (b : ℕ → UInt8) (o : ℕ) :
    .ofNat o + 2 + (be16 b o).toUInt32 = UInt32.ofNat (recordData b o) := by
  rw [recordData, UInt32.ofNat_add, UInt32.ofNat_add, recordKeyLength, ← UInt16.toNat_toUInt32,
    UInt32.ofNat_toNat]
  rfl

theorem nodeSize_le_ofNat_iff (ho : o < 65536) :
    nodeSize ≤ .ofNat o + 8 ↔ ¬o + 8 < nodeSize.toNat := by
  rw [show (8 : UInt32) = .ofNat 8 from rfl, ← UInt32.ofNat_add, UInt32.le_iff_toNat_le,
    toNat_ofNat_lt (by omega), not_lt]

theorem nodeSize_lt_recordData_iff (ho : o < 65536) :
    nodeSize < .ofNat (recordData b o) + 2 ↔ ¬recordData b o + 2 ≤ nodeSize.toNat := by
  have hlen : recordKeyLength b o < 65536 := UInt16.toNat_lt _
  have hdata : recordData b o = o + 2 + recordKeyLength b o := rfl
  rw [show (2 : UInt32) = .ofNat 2 from rfl, ← UInt32.ofNat_add, UInt32.lt_iff_toNat_lt,
    toNat_ofNat_lt (by omega), not_le]

/-- **One record**: it ends the scan exactly when the scan takes it. Of a record of the kind asked
for, what the scan reads must be among the bytes that `b` stands for. -/
theorem scanRecord_hit (hview : Staged m secbuf n b) (hn : nodeSize.toNat ≤ n) (ho : o < 65536)
    (hslot : recordData b o + 2 ≤ nodeSize.toNat → IsWanted b o q →
      o + 8 + 2 * (recordName b o).length ≤ n ∧ (recordType b o = 1 → recordData b o + 12 ≤ n) ∧
        (recordType b o = 2 → recordData b o + 168 ≤ n)) :
    (scanRecord q secbuf nodeSize m (.ofNat o)).2 = hitAt q b nodeSize.toNat o := by
  have hskip : nodeSize ≤ .ofNat o + 8 ↔ ¬o + 8 < nodeSize.toNat := nodeSize_le_ofNat_iff ho
  have hfit : nodeSize < .ofNat (recordData b o) + 2 ↔ ¬recordData b o + 2 ≤ nodeSize.toNat :=
    nodeSize_lt_recordData_iff ho
  rw [scanRecord]
  by_cases hkey : nodeSize ≤ .ofNat o + 8
  · rw [if_pos hkey, eq_comm, hitAt_eq_none_iff]
    exact fun htakes ↦ hskip.mp hkey htakes.1
  rw [if_neg hkey]
  rw [hskip, not_not] at hkey
  have hkeyLen : rdbe16 m (secbuf + .ofNat o) = be16 b o := hview.rdbe16 (by omega)
  simp only [hkeyLen, ofNat_recordData]
  by_cases hin : nodeSize < .ofNat (recordData b o) + 2
  · rw [if_pos hin, eq_comm, hitAt_eq_none_iff]
    exact fun htakes ↦ hfit.mp hin htakes.2.1
  rw [if_neg hin]
  rw [hfit, not_not] at hin
  have hrtype : rdbe16 m (secbuf + .ofNat (recordData b o)) = recordType b o :=
    hview.rdbe16 (by omega)
  have hparent : rdbe32 m (secbuf + .ofNat o + 2) = recordParent b o := by
    rw [add_ofNat_lit]
    exact hview.rdbe32 (by omega)
  have hnameLen : rdbe16 m (secbuf + .ofNat o + 6) = be16 b (o + 6) := by
    rw [add_ofNat_lit]
    exact hview.rdbe16 (by omega)
  simp only [hrtype, hparent, hnameLen]
  by_cases hwanted : IsWanted b o q
  · obtain ⟨hname, hfolder, hfile⟩ := hslot hin hwanted
    have hascii : asciiNameFromUtf16be m (secbuf + .ofNat o + 8) (be16 b (o + 6)) 128
        = ((recordName b o).map asciiChar).take 127 := by
      rw [add_ofNat_lit]
      exact hview.asciiName hname
    rw [hascii]
    by_cases hmatch : recordParent b o ≠ q.parent ∨
        ¬sEq (((recordName b o).map asciiChar).take 127) q.target
    · rw [if_pos hmatch, eq_comm, hitAt_eq_none_iff]
      rintro ⟨-, -, hp, hs, -⟩
      exact hmatch.elim (fun h ↦ h hp) fun h ↦ h ((sEq_iff _ _).mpr hs)
    rw [if_neg hmatch]
    rw [not_or, not_not, not_not, sEq_iff] at hmatch
    have htakes : Takes q b nodeSize.toNat o := ⟨hkey, hin, hmatch.1, hmatch.2, hwanted⟩
    rw [hitAt, if_pos htakes]
    rcases hwanted with hone | htwo
    · rw [if_pos hone, if_pos hone.1, add_ofNat_lit,
        hview.rdbe32 (hfolder hone.1)]
    · have hone : ¬recordType b o = 1 := by rw [htwo.1]; decide
      rw [if_neg (fun h ↦ hone h.1), if_pos htwo, if_neg hone,
        hview.forkFromFileRecord (hfile htwo.1)]
  · -- not of the kind asked for: whatever its name reads as, the scan goes on
    have hmiss : hitAt q b nodeSize.toNat o = none := by
      rw [hitAt_eq_none_iff]
      exact fun htakes ↦ hwanted htakes.2.2.2.2
    rw [hmiss]
    split_ifs with _ hone htwo
    · rfl
    · exact absurd (Or.inl hone) hwanted
    · exact absurd (Or.inr htwo) hwanted
    · rfl

/-- The record ends the scan exactly when the scan takes it, whatever stands behind the node. -/
theorem scanRecord_hit_bytesAt {o : ℕ} (ho : o < 65536) :
    (scanRecord q secbuf nodeSize m (.ofNat o)).2
      = hitAt q (bytesAt m secbuf) nodeSize.toNat o := by
  have hview : Staged m secbuf 4294967296 (bytesAt m secbuf) := fun k _ ↦ rfl
  generalize bytesAt m secbuf = b at hview ⊢
  have hlen : recordKeyLength b o < 65536 := UInt16.toNat_lt _
  have hdata : recordData b o = o + 2 + recordKeyLength b o := rfl
  have hname : (recordName b o).length < 65536 := by
    rw [recordName, List.length_map, List.length_range]
    exact UInt16.toNat_lt _
  exact scanRecord_hit hview nodeSize.toNat_lt.le ho fun _ _ ↦
    ⟨by omega, fun _ ↦ by omega, fun _ ↦ by omega⟩

end Record

/-! ## One node -/

/-- The entries of the offset table that the scan looks at, in its order: that of the free space,
then the records from the last one on, and not record `0`. -/
def scannedSlots (b : ℕ → UInt8) (n : ℕ) : List ℕ :=
  if b 8 = 255 ∧ 2 * (numRecords b + 1) ≤ n then
    (List.range (numRecords b)).map fun r ↦ numRecords b - r
  else []

theorem findSome_congr {α β : Type*} {f g : α → Option β} {l : List α} (h : ∀ x ∈ l, f x = g x) :
    l.findSome? f = l.findSome? g := by
  induction l with
  | nil => rfl
  | cons x l ih =>
    rw [List.findSome?_cons, List.findSome?_cons, h x List.mem_cons_self,
      ih fun y hy ↦ h y (List.mem_cons_of_mem x hy)]

theorem findSome_flatMap {α β γ : Type*} (f : β → Option γ) (g : α → List β) (l : List α) :
    (l.flatMap g).findSome? f = l.findSome? fun x ↦ (g x).findSome? f := by
  induction l with
  | nil => rfl
  | cons x l ih =>
    rw [List.flatMap_cons, List.findSome?_append, ih, List.findSome?_cons]
    cases (g x).findSome? f <;> rfl

theorem scanRecords_snd (q : ScanQuery) (secbuf nodeSize : UInt32) (m : Mem) (idx : UInt32)
    (rs : List ℕ) (recordType : UInt16) :
    (scanRecords q secbuf nodeSize m idx rs recordType).2 = rs.findSome? fun r ↦
      (scanRecord q secbuf nodeSize m (rdbe16 m (idx + .ofNat (2 * r))).toUInt32).2 := by
  induction rs generalizing recordType with
  | nil => rfl
  | cons r rs ih =>
    rw [scanRecords, List.findSome?_cons]
    generalize scanRecord q secbuf nodeSize m (rdbe16 m (idx + .ofNat (2 * r))).toUInt32 = result
    rcases result with ⟨written, _ | hit⟩
    · exact ih _
    · rfl

section ScanNode

variable {m : Mem} {secbuf nodeSize : UInt32} {b : ℕ → UInt8}

theorem two_mul_numRecords (b : ℕ → UInt8) :
    2 * ((be16 b 10).toUInt32 + 1) = UInt32.ofNat (2 * (numRecords b + 1)) := by
  rw [UInt32.ofNat_mul, UInt32.ofNat_add, numRecords, ← UInt16.toNat_toUInt32, UInt32.ofNat_toNat]
  rfl

theorem tableStart_eq (htable : 2 * (numRecords b + 1) ≤ nodeSize.toNat) :
    secbuf + nodeSize - 2 * ((be16 b 10).toUInt32 + 1)
      = secbuf + .ofNat (nodeSize.toNat - 2 * (numRecords b + 1)) := by
  have hsub : UInt32.ofNat (nodeSize.toNat - 2 * (numRecords b + 1))
      = nodeSize - .ofNat (2 * (numRecords b + 1)) := by
    rw [UInt32.ofNat_sub htable, UInt32.ofNat_toNat]
  rw [two_mul_numRecords, hsub]
  grind

theorem nodeSize_lt_table_iff :
    nodeSize < 2 * ((be16 b 10).toUInt32 + 1) ↔ ¬2 * (numRecords b + 1) ≤ nodeSize.toNat := by
  have hlt : numRecords b < 65536 := UInt16.toNat_lt _
  rw [two_mul_numRecords, UInt32.lt_iff_toNat_lt, toNat_ofNat_lt (by omega), not_le]

theorem Staged.slot (hview : Staged m secbuf nodeSize.toNat b)
    (htable : 2 * (numRecords b + 1) ≤ nodeSize.toNat) {r : ℕ} (hr : r ≤ numRecords b) :
    (CaribeOS.rdbe16 m
        (secbuf + nodeSize - 2 * ((be16 b 10).toUInt32 + 1) + .ofNat (2 * r))).toUInt32
      = .ofNat (recordOffset b nodeSize.toNat (numRecords b - r)) := by
  have hpos : nodeSize.toNat - 2 * (numRecords b + 1) + 2 * r
      = nodeSize.toNat - 2 * (numRecords b - r + 1) := by omega
  rw [tableStart_eq htable, add_ofNat_add, hpos, hview.rdbe16 (by omega), recordOffset,
    ← UInt16.toNat_toUInt32,
    UInt32.ofNat_toNat]

/-- **One node**, if its records end the scan as they do in `b`. -/
theorem scanNode_hit (hview : Staged m secbuf n b) (hn : nodeSize.toNat ≤ n) (hlarge : 12 ≤ n)
    (hrecord : ∀ i ∈ scannedSlots b nodeSize.toNat,
      (scanRecord q secbuf nodeSize m (.ofNat (recordOffset b nodeSize.toNat i))).2
        = hitAt q b nodeSize.toNat (recordOffset b nodeSize.toNat i)) (recType : UInt16) :
    (scanNode q secbuf nodeSize m recType).2
      = (scannedSlots b nodeSize.toNat).findSome? fun i ↦
          hitAt q b nodeSize.toNat (recordOffset b nodeSize.toNat i) := by
  have hnode : Staged m secbuf nodeSize.toNat b := fun k hk ↦ hview k (hk.trans_le hn)
  have hkind : m (secbuf + 8) = b 8 := hview 8 (by omega)
  have hnum : rdbe16 m (secbuf + 10) = be16 b 10 := hview.rdbe16 (o := 10) (by omega)
  have hfit : nodeSize < 2 * ((be16 b 10).toUInt32 + 1) ↔
      ¬2 * (numRecords b + 1) ≤ nodeSize.toNat := nodeSize_lt_table_iff
  rw [scanNode, hkind]
  by_cases hb : b 8 = 255
  · rw [if_neg (not_not.mpr hb)]
    simp only [hnum]
    by_cases htable : 2 * (numRecords b + 1) ≤ nodeSize.toNat
    · have hall : scannedSlots b nodeSize.toNat
          = (List.range (numRecords b)).map fun r ↦ numRecords b - r := if_pos ⟨hb, htable⟩
      rw [hall] at hrecord ⊢
      by_cases hzero : be16 b 10 = 0
      · rw [if_pos (Or.inl hzero), numRecords, hzero]
        rfl
      · rw [if_neg (not_or.mpr ⟨hzero, hfit.not.mpr (not_not.mpr htable)⟩), scanRecords_snd,
          ← numRecords, List.findSome?_map]
        refine findSome_congr fun r hr ↦ ?_
        rw [hnode.slot htable (List.mem_range.mp hr).le, Function.comp_apply]
        exact hrecord _ (List.mem_map_of_mem hr)
    · have hnone : scannedSlots b nodeSize.toNat = [] := if_neg fun h ↦ htable h.2
      rw [if_pos (Or.inr (hfit.mpr htable)), hnone]
      rfl
  · have hnone : scannedSlots b nodeSize.toNat = [] := if_neg fun h ↦ hb h.1
    rw [if_pos hb, hnone]
    rfl

theorem scanNode_bytesAt (q : ScanQuery) (secbuf nodeSize : UInt32) (m : Mem) (recType : UInt16) :
    (scanNode q secbuf nodeSize m recType).2
      = (scannedSlots (bytesAt m secbuf) nodeSize.toNat).findSome? fun i ↦
          hitAt q (bytesAt m secbuf) nodeSize.toNat
            (recordOffset (bytesAt m secbuf) nodeSize.toNat i) :=
  scanNode_hit (n := 4294967296) (fun _ _ ↦ rfl) nodeSize.toNat_lt.le (by decide)
    (fun _ _ ↦ scanRecord_hit_bytesAt (recordOffset_lt _ _ _)) recType

end ScanNode

/-! ## The whole scan -/

section Catalog

variable (disk : Disk) (hfs : HfsVolume)

/-- The bytes of a catalog node. -/
def nodeBytes (node : ℕ) (k : ℕ) : UInt8 :=
  (forkByte disk hfs.bs.toNat (List.ofFn hfs.catalog.ext) (node * hfs.nodeSize.toNat + k)).getD 0

/-- The eight extents cover the block of a node, and the disk delivers it. -/
def nodeReadable (node : ℕ) : Bool :=
  match forkBlock (List.ofFn hfs.catalog.ext) (node * hfs.nodeSize.toNat / hfs.bs.toNat) with
  | none => false
  | some p => disk.ok (blockLba hfs (.ofNat p)) hfs.sectorsPerBlock

/-- The offset of a record in its node. -/
def offsetAt (pos : ℕ × ℕ) : ℕ := recordOffset (nodeBytes disk hfs pos.1) hfs.nodeSize.toNat pos.2

/-- The entries that the scan of `count` nodes from `node` on looks at, in its order, each given by
its node and index. It ends at a node that cannot be read. -/
def scannedFrom (node count : ℕ) : List (ℕ × ℕ) :=
  ((List.range' node count).takeWhile (nodeReadable disk hfs)).flatMap fun node ↦
    (scannedSlots (nodeBytes disk hfs node) hfs.nodeSize.toNat).map fun i ↦ (node, i)

/-- All entries that the scan looks at. -/
def scanned : List (ℕ × ℕ) :=
  scannedFrom disk hfs (catalogRange hfs).1.toNat
    ((catalogRange hfs).2.toNat - (catalogRange hfs).1.toNat + 1)

/-- What the entry contributes to the scan. -/
def hitOf (q : ScanQuery) (pos : ℕ × ℕ) : Option ScanHit :=
  hitAt q (nodeBytes disk hfs pos.1) hfs.nodeSize.toNat (offsetAt disk hfs pos)

/-- The nodes that the node loop stages, each with the memory after it has been read. -/
def stagedNodes (secbuf last : UInt32) : ℕ → UInt32 → Mem → List (ℕ × Mem)
  | 0, _, _ => []
  | fuel + 1, node, m =>
    if last < node then []
    else
      match forkRead disk hfs secbuf hfs.catalog (node * hfs.nodeSize) secbuf hfs.nodeSize m with
      | (false, _) => []
      | (true, m) =>
        (node.toNat, m) :: if node = last then [] else stagedNodes secbuf last fuel (node + 1) m

/-- A catalog whose nodes the reader reads as they are: each in one block, the scanned ones inside
the fork and below 4 GiB, sector numbers of 32 bits. -/
structure CatalogGeometry : Prop where
  sane : hfs.SaneBlockSize
  large : 14 ≤ hfs.nodeSize.toNat
  nodeSize_le : hfs.nodeSize.toNat ≤ 8192
  inside : ((catalogRange hfs).2.toNat + 1) * hfs.nodeSize.toNat ≤ hfs.catalog.size.toNat
  top : ((catalogRange hfs).2.toNat + 1) * hfs.nodeSize.toNat ≤ 4294967296
  oneBlock : ∀ node ≤ (catalogRange hfs).2.toNat,
    InOneBlock hfs (node * hfs.nodeSize.toNat) hfs.nodeSize.toNat
  sectors : ∀ node ≤ (catalogRange hfs).2.toNat, ∀ p,
    forkBlock (List.ofFn hfs.catalog.ext) (node * hfs.nodeSize.toNat / hfs.bs.toNat) = some p →
      p * hfs.sectorsPerBlock.toNat < 4294967296

variable {disk hfs}

theorem nodeReadable_iff {node : ℕ} : nodeReadable disk hfs node = true ↔
    BlockOk disk hfs (List.ofFn hfs.catalog.ext) (node * hfs.nodeSize.toNat / hfs.bs.toNat) := by
  rw [nodeReadable, BlockOk]
  cases forkBlock (List.ofFn hfs.catalog.ext) (node * hfs.nodeSize.toNat / hfs.bs.toNat) with
  | none => simp
  | some p => simp

/-- **The node loop** ends at the first node that the scan ends in, among those that are staged. -/
theorem scanNodes_staged {secbuf last : UInt32} {fuel : ℕ} (recType : UInt16) (m : Mem) :
    (scanNodes q secbuf hfs.nodeSize disk hfs last fuel node recType m).1.2
      = (stagedNodes disk hfs secbuf last fuel node m).findSome? fun s ↦
          (scanNode q secbuf hfs.nodeSize s.2 0).2 := by
  induction fuel generalizing node recType m with
  | zero => rfl
  | succ fuel ih =>
    rw [scanNodes, stagedNodes]
    by_cases hend : last < node
    · rw [if_pos hend, if_pos hend]
      rfl
    rw [if_neg hend, if_neg hend]
    generalize forkRead disk hfs secbuf hfs.catalog (node * hfs.nodeSize) secbuf hfs.nodeSize m
      = result
    obtain ⟨_ | _, m'⟩ := result
    · rfl
    -- the type of the last record is no part of what the scan returns
    have hhit : (scanNode q secbuf hfs.nodeSize m' recType).2
        = (scanNode q secbuf hfs.nodeSize m' 0).2 :=
      (scanNode_bytesAt _ _ _ _ _).trans (scanNode_bytesAt _ _ _ _ _).symm
    dsimp only
    rw [List.findSome?_cons, ← hhit]
    generalize scanNode q secbuf hfs.nodeSize m' recType = found
    obtain ⟨recType', _ | hit⟩ := found
    · dsimp only
      by_cases hlast : node = last
      · rw [if_pos hlast, if_pos hlast]
        rfl
      · rw [if_neg hlast, if_neg hlast]
        exact ih recType' m'
    · rfl

theorem catalogRange_le (hfs : HfsVolume) : (catalogRange hfs).1 ≤ (catalogRange hfs).2 := by
  rw [catalogRange]
  generalize (if hfs.totalCatalogNodes = 0 then hfs.catalog.size.toUInt32 / hfs.nodeSize
    else hfs.totalCatalogNodes) = total
  split_ifs with hbad htotal
  · have hone : (1 : UInt32).toNat = 1 := rfl
    rw [UInt32.lt_iff_toNat_lt] at htotal
    change (1 : UInt32) ≤ total - 1
    rw [UInt32.le_iff_toNat_le, UInt32.toNat_sub_of_le _ _ (UInt32.le_iff_toNat_le.mpr (by omega))]
    omega
  · exact UInt32.le_refl _
  · simp only [not_or, UInt32.not_lt] at hbad
    exact hbad.2.2.2.2

/-- An entry that is looked at is in the range of the scan, and one of the slots of its node. -/
theorem mem_scanned {disk : Disk} {hfs : HfsVolume} {pos : ℕ × ℕ} (hpos : pos ∈ scanned disk hfs) :
    (catalogRange hfs).1.toNat ≤ pos.1 ∧ pos.1 ≤ (catalogRange hfs).2.toNat ∧
      pos.2 ∈ scannedSlots (nodeBytes disk hfs pos.1) hfs.nodeSize.toNat := by
  have hle := UInt32.le_iff_toNat_le.mp (catalogRange_le hfs)
  rw [scanned, scannedFrom, List.mem_flatMap] at hpos
  obtain ⟨node, hnode, hslot⟩ := hpos
  obtain ⟨i, hi, rfl⟩ := List.mem_map.mp hslot
  have hrange := List.mem_range'_1.mp ((List.takeWhile_sublist _).subset hnode)
  exact ⟨hrange.1, by dsimp only; omega, hi⟩

namespace CatalogGeometry

variable (h : CatalogGeometry hfs)
include h

theorem nodeRange (hnode : node.toNat ≤ (catalogRange hfs).2.toNat) :
    (node * hfs.nodeSize).toNat = node.toNat * hfs.nodeSize.toNat ∧
      NodeRange hfs hfs.catalog (node * hfs.nodeSize) hfs.nodeSize := by
  have hlarge := h.large
  have hend : node.toNat * hfs.nodeSize.toNat + hfs.nodeSize.toNat
      ≤ ((catalogRange hfs).2.toNat + 1) * hfs.nodeSize.toNat := by
    rw [← Nat.succ_mul]
    exact Nat.mul_le_mul_right _ (Nat.succ_le_succ hnode)
  have htop := hend.trans h.top
  have hmul : (node * hfs.nodeSize).toNat = node.toNat * hfs.nodeSize.toNat := by
    rw [UInt32.toNat_mul, Nat.mod_eq_of_lt (by omega)]
  exact ⟨hmul, h.sane, h.nodeSize_le, by rw [hmul]; exact hend.trans h.inside⟩

theorem forkRead_node (disk : Disk) (secbuf : UInt32)
    (hnode : node.toNat ≤ (catalogRange hfs).2.toNat) (m : Mem) :
    (forkRead disk hfs secbuf hfs.catalog (node * hfs.nodeSize) secbuf hfs.nodeSize m).1
        = nodeReadable disk hfs node.toNat ∧
      (nodeReadable disk hfs node.toNat = true →
        Staged (forkRead disk hfs secbuf hfs.catalog (node * hfs.nodeSize) secbuf hfs.nodeSize m).2
          secbuf hfs.nodeSize.toNat (nodeBytes disk hfs node.toNat)) := by
  obtain ⟨hmul, hrange⟩ := h.nodeRange hnode
  have hone := h.oneBlock node.toNat hnode
  have hlarge := h.large
  have htop : (node * hfs.nodeSize).toNat + hfs.nodeSize.toNat ≤ 4294967296 := by
    rw [hmul, ← Nat.succ_mul]
    exact (Nat.mul_le_mul_right _ (Nat.succ_le_succ hnode)).trans h.top
  rw [← hmul] at hone
  have hok : (forkRead disk hfs secbuf hfs.catalog (node * hfs.nodeSize) secbuf hfs.nodeSize m).1
      = nodeReadable disk hfs node.toNat := by
    rw [Bool.eq_iff_iff, forkRead_eq_loop disk hrange.sane hrange.inside (by omega),
      forkReadLoop_fst_iff hrange.sane le_rfl htop, nodeReadable_iff, ← hmul]
    constructor
    · intro hall
      exact hall _ le_rfl (by omega)
    · intro hblock x hle hlt
      obtain ⟨k, rfl⟩ := Nat.exists_eq_add_of_le hle
      rwa [(div_mod_of_inOneBlock hone (by omega)).1]
  have hfit : SectorsFit hfs (List.ofFn hfs.catalog.ext) (node * hfs.nodeSize).toNat
      hfs.nodeSize.toNat := by
    intro x hle hlt p hp
    obtain ⟨k, rfl⟩ := Nat.exists_eq_add_of_le hle
    rw [(div_mod_of_inOneBlock hone (by omega)).1, hmul] at hp
    exact h.sectors node.toNat hnode p hp
  refine ⟨hok, fun hread k hk ↦ ?_⟩
  have hbyte := nodeAssembled_of_inOneBlock hrange hone hfit disk m _
    (Prod.ext (hok.trans hread) rfl) k hk
  rw [nodeBytes, ← hmul, hbyte, Option.getD_some]

/-- What is staged are the nodes from `node` on up to one that cannot be read, as they are. -/
theorem stagedNodes_spec (disk : Disk) (secbuf : UInt32) (fuel : ℕ) (node : UInt32) (m : Mem)
    (hfuel : node.toNat + fuel = (catalogRange hfs).2.toNat + 1) :
    (stagedNodes disk hfs secbuf (catalogRange hfs).2 fuel node m).map Prod.fst
        = (List.range' node.toNat fuel).takeWhile (nodeReadable disk hfs) ∧
      ∀ s ∈ stagedNodes disk hfs secbuf (catalogRange hfs).2 fuel node m,
        Staged s.2 secbuf hfs.nodeSize.toNat (nodeBytes disk hfs s.1) := by
  induction fuel generalizing node m with
  | zero => exact ⟨rfl, fun s hs ↦ absurd hs List.not_mem_nil⟩
  | succ fuel ih =>
    have hnode : node.toNat ≤ (catalogRange hfs).2.toNat := by omega
    have hgo : ¬(catalogRange hfs).2 < node := by
      rw [UInt32.lt_iff_toNat_lt]
      omega
    obtain ⟨hread, hstaged⟩ := h.forkRead_node disk secbuf hnode m
    rw [stagedNodes, if_neg hgo, List.range'_succ, List.takeWhile_cons]
    generalize forkRead disk hfs secbuf hfs.catalog (node * hfs.nodeSize) secbuf hfs.nodeSize m
      = result at hread hstaged ⊢
    obtain ⟨ok, m'⟩ := result
    cases ok with
    | false =>
      rw [← hread]
      exact ⟨rfl, fun s hs ↦ absurd hs List.not_mem_nil⟩
    | true =>
      rw [if_pos hread.symm]
      dsimp only
      by_cases hlast : node = (catalogRange hfs).2
      · obtain rfl : fuel = 0 := by
          rw [← hlast] at hfuel
          omega
        rw [if_pos hlast]
        exact ⟨rfl, List.forall_mem_singleton.mpr (hstaged hread.symm)⟩
      · have hlt : node.toNat < (catalogRange hfs).2.toNat :=
          lt_of_le_of_ne hnode fun heq ↦ hlast (UInt32.toNat_inj.mp heq)
        have hbound := (catalogRange hfs).2.toNat_lt
        have hnext : (node + 1).toNat = node.toNat + 1 := by
          rw [UInt32.toNat_add, show (1 : UInt32).toNat = 1 from rfl, Nat.mod_eq_of_lt (by omega)]
        obtain ⟨hnodes, hrest⟩ := ih (node + 1) m' (by omega)
        rw [hnext] at hnodes
        rw [if_neg hlast, List.map_cons, hnodes]
        exact ⟨rfl, List.forall_mem_cons.mpr ⟨hstaged hread.symm, hrest⟩⟩

/-- **What `catalog_scan_child` finds**: the first entry that the scan takes, among those it looks
at. -/
theorem catalogScanChild_hit (hslots : ∀ pos ∈ scanned disk hfs,
      SlotInside (nodeBytes disk hfs pos.1) hfs.nodeSize.toNat (offsetAt disk hfs pos) q)
    (secbuf : UInt32) (recType : UInt16) (m : Mem) :
    (catalogScanChild disk hfs secbuf q recType m).1.2
      = (scanned disk hfs).findSome? (hitOf disk hfs q) := by
  have hsize : ¬hfsNodeBufSize < hfs.nodeSize := by
    exact not_lt.mpr h.nodeSize_le
  have hle := UInt32.le_iff_toNat_le.mp (catalogRange_le hfs)
  have hlarge := h.large
  rw [catalogScanChild, if_neg hsize, UInt32.toNat_sub_of_le _ _ (catalogRange_le hfs),
    scanNodes_staged]
  obtain ⟨hnodes, hstaged⟩ := h.stagedNodes_spec disk secbuf
    ((catalogRange hfs).2.toNat - (catalogRange hfs).1.toNat + 1) (catalogRange hfs).1 m (by omega)
  rw [scanned, scannedFrom, ← hnodes, findSome_flatMap, List.findSome?_map]
  rw [scanned, scannedFrom, ← hnodes] at hslots
  refine findSome_congr fun s hs ↦ ?_
  rw [Function.comp_apply, List.findSome?_map]
  refine scanNode_hit (hstaged s hs) le_rfl (by omega) (fun i hi ↦ ?_) 0
  exact scanRecord_hit (hstaged s hs) le_rfl (recordOffset_lt _ _ _) (hslots (s.1, i)
    (List.mem_flatMap.mpr ⟨s.1, List.mem_map_of_mem hs, List.mem_map_of_mem hi⟩))

end CatalogGeometry

end Catalog

end CaribeOS
