import CaribeOS.Hfs.CreateScript
import CaribeOS.Hfs.ScriptBitmap

/-!
# The record of a new file

`build_catalog_file_record` encodes the key and the data of a file record (`FileRecord`), and the node
with the record in it is a leaf with one record more (`Inserted`). `insertRecord_eq` says when there is
such a node: if it is a leaf, the name is ASCII and there is room for the record.
-/

namespace CaribeOS

/-! ## Numbers at two places -/

section Shift

variable {b b' : ℕ → UInt8} {o o' : ℕ}

theorem be16_shift (h : ∀ j < 2, b (o + j) = b' (o' + j)) : be16 b o = be16 b' o' := by
  rw [be16, be16, ← Nat.add_zero o, ← Nat.add_zero o', h 0 (by decide), Nat.add_zero, Nat.add_zero,
    h 1 (by decide)]

theorem be32_shift (h : ∀ j < 4, b (o + j) = b' (o' + j)) : be32 b o = be32 b' o' := by
  have h0 := h 0 (by decide)
  rw [Nat.add_zero, Nat.add_zero] at h0
  rw [be32, be32, h0, h 1 (by decide), h 2 (by decide), h 3 (by decide)]

theorem be64_shift (h : ∀ j < 8, b (o + j) = b' (o' + j)) : be64 b o = be64 b' o' := by
  have hlow : be32 b (o + 4) = be32 b' (o' + 4) := be32_shift fun j hj ↦ by
    rw [Nat.add_assoc, Nat.add_assoc]
    exact h (4 + j) (by omega)
  rw [be64, be64, be32_shift fun j hj ↦ h j (by omega), hlow]

end Shift

variable {b : ℕ → UInt8} {buf : Buf} {extent : ℕ × ℕ} {n o size : ℕ} {name : List Char}
  {off value : ℤ}

variable {b' : ℕ → UInt8} {fileId o' p v : ℕ} {index : ℤ}

namespace HfsScript

open FileScript Extents

theorem extentsAt_shift (h : ∀ j < 64, b (o + j) = b' (o' + j)) :
    extentsAt b o = extentsAt b' o' := by
  refine List.map_congr_left fun i hi ↦ ?_
  rw [List.mem_range] at hi
  have hword : ∀ p, p + 4 ≤ 64 → CaribeOS.be32 b (o + p) = CaribeOS.be32 b' (o' + p) :=
    fun p hp ↦ be32_shift fun j hj ↦ by
      rw [Nat.add_assoc, Nat.add_assoc]
      exact h (p + j) (by omega)
  rw [extentAt, extentAt, hword _ (by omega), Nat.add_assoc o, hword _ (by omega), Nat.add_assoc]

theorem be16_putBytes_of_disjoint (h : p + 2 ≤ o ∨ o + n ≤ p) :
    CaribeOS.be16 (putBytes b o n v) p = CaribeOS.be16 b p :=
  be16_congr fun k _ _ ↦ putBytes_of_notMem (by omega)

theorem be64_putBytes_of_disjoint (h : p + 8 ≤ o ∨ o + n ≤ p) :
    CaribeOS.be64 (putBytes b o n v) p = CaribeOS.be64 b p :=
  be64_congr fun k _ _ ↦ putBytes_of_notMem (by omega)

theorem putBe16_eq (hoff : 0 ≤ off) (hv : 0 ≤ value ∧ value < 65536) (h : off.toNat + 2 ≤ buf.size)
    : putBe16 buf off value = .ok (stored buf off.toNat 2 value.toNat) :=
  putBe16_of_le (by omega) (by omega) (by omega) h

theorem putBe32_eq (hoff : 0 ≤ off) (hv : 0 ≤ value ∧ value < 4294967296)
    (h : off.toNat + 4 ≤ buf.size) :
    putBe32 buf off value = .ok (stored buf off.toNat 4 value.toNat) :=
  putBe32_of_le (by omega) (by omega) (by omega) h

theorem putBe64_eq (hoff : 0 ≤ off) (hv : 0 ≤ value ∧ value < 18446744073709551616)
    (h : off.toNat + 8 ≤ buf.size) :
    putBe64 buf off value = .ok (stored buf off.toNat 8 value.toNat) :=
  putBe64_of_le (by omega) (by omega) (by omega) h

/-! ## Parts of a buffer -/

theorem size_append (a b : Buf) : (a.append b).size = a.size + b.size := rfl

theorem byte_append_left {a b : Buf} {k : ℕ} (h : k < a.size) : (a.append b).byte k = a.byte k :=
  if_pos h

theorem byte_append_right (a b : Buf) (k : ℕ) : (a.append b).byte (a.size + k) = b.byte k := by
  rw [Buf.append]
  dsimp only
  rw [if_neg (by omega), Nat.add_sub_cancel_left]

theorem splice_eq (buf data : Buf) (lo : ℕ) (h : lo + data.size ≤ buf.size) :
    (splice buf lo (lo + data.size) data).size = buf.size ∧
      ∀ k < buf.size, (splice buf lo (lo + data.size) data).byte k
        = if lo ≤ k ∧ k < lo + data.size then data.byte (k - lo) else buf.byte k := by
  have hlo : (buf.slice 0 lo).size = lo := Buf.size_slice _ (by omega)
  have hhi : (buf.slice (lo + data.size) (buf.size - (lo + data.size))).size
      = buf.size - (lo + data.size) := Buf.size_slice _ (by omega)
  have hfirst : ((buf.slice 0 lo).append data).size = lo + data.size := by
    rw [size_append, hlo]
  refine ⟨?_, fun k hk ↦ ?_⟩
  · rw [splice, size_append, hfirst, hhi]
    omega
  · rw [splice]
    by_cases hlt : k < lo + data.size
    · rw [byte_append_left (by rw [hfirst]; exact hlt)]
      by_cases hle : lo ≤ k
      · obtain ⟨j, rfl⟩ := Nat.exists_eq_add_of_le hle
        have := byte_append_right (buf.slice 0 lo) data j
        rw [hlo] at this
        rw [this, if_pos ⟨hle, hlt⟩, Nat.add_sub_cancel_left]
      · rw [byte_append_left (by rw [hlo]; omega), if_neg (by omega)]
        exact congrArg buf.byte (Nat.zero_add k)
    · obtain ⟨j, rfl⟩ := Nat.exists_eq_add_of_le (Nat.not_lt.mp hlt)
      have := byte_append_right ((buf.slice 0 lo).append data)
        (buf.slice (lo + data.size) (buf.size - (lo + data.size))) j
      rw [hfirst] at this
      rw [this, if_neg (by omega)]
      rfl

/-! ## The data of the record -/

theorem be32_eq_zero (h : ∀ k, o ≤ k → k < o + 4 → b k = 0) : CaribeOS.be32 b o = 0 := by
  have hcongr : CaribeOS.be32 b o = CaribeOS.be32 (fun _ ↦ 0) o := be32_congr h
  rw [hcongr, CaribeOS.be32]
  rfl

theorem extentAt_eq_zero {i : ℕ} (h : ∀ k, o + i * 8 ≤ k → k < o + i * 8 + 8 → b k = 0) :
    extentAt b o i = (0, 0) := by
  rw [extentAt, be32_eq_zero fun k hle hlt ↦ h k hle (by omega),
    be32_eq_zero fun k hle hlt ↦ h k (by omega) (by omega)]
  rfl

theorem extentsAt_zero (h : ∀ k, o ≤ k → k < o + 64 → b k = 0) :
    extentsAt b o = List.replicate 8 (0, 0) := by
  have hzero : ∀ i ∈ List.range 8, extentAt b o i = (0, 0) := by
    intro i hi
    rw [List.mem_range] at hi
    exact extentAt_eq_zero fun k hle hlt ↦ h k (by omega) (by omega)
  rw [extentsAt, List.map_congr_left hzero]
  rfl

/-- The data of a file record, with an empty resource fork. -/
structure FileData (b : ℕ → UInt8) (o size : ℕ) (extent : ℕ × ℕ) : Prop where
  type : CaribeOS.be16 b o = 2
  size : (CaribeOS.be64 b (o + 88)).toNat = size
  extents : extentsAt b (o + 88 + 16) = extent :: List.replicate 7 (0, 0)
  resource : extentsAt b (o + 168 + 16) = List.replicate 8 (0, 0)

theorem FileData.shift (h : FileData b o size extent) (heq : ∀ j < 248, b' (o' + j) = b (o + j)) :
    FileData b' o' size extent := by
  have hpart : ∀ p n, p + n ≤ 248 → ∀ j < n, b' (o' + p + j) = b (o + p + j) := by
    intro p n hn j hj
    rw [Nat.add_assoc, Nat.add_assoc]
    exact heq (p + j) (by omega)
  refine ⟨?_, ?_, ?_, ?_⟩
  · rw [be16_shift fun j hj ↦ heq j (by omega), h.type]
  · rw [be64_shift (hpart 88 8 (by omega)), h.size]
  · rw [Nat.add_assoc o', extentsAt_shift (hpart (88 + 16) 64 (by omega)), ← Nat.add_assoc,
      h.extents]
  · rw [Nat.add_assoc o', extentsAt_shift (hpart (168 + 16) 64 (by omega)), ← Nat.add_assoc,
      h.resource]

/-- The numbers of a new record fit into their fields. -/
structure RecordFits (hfs : HFSPlusImage) (fileId size : ℕ) (extent : ℕ × ℕ) : Prop where
  id_lt : fileId < 4294967296
  size_lt : size < 18446744073709551616
  blocks_lt : ceilDiv size hfs.blockSize < 4294967296
  start_lt : extent.1 < 4294967296
  count_lt : extent.2 < 4294967296

theorem fileRecordData_eq {hfs : HFSPlusImage} (hfit : RecordFits hfs fileId size extent) :
    ∃ data, fileRecordData hfs fileId size extent = .ok data ∧ data.size = 248 ∧
      FileData data.byte 0 size extent := by
  obtain ⟨hid, hsize, hblocks, hstart, hcount⟩ := hfit
  rw [fileRecordData, putBe16_eq (by decide) (by decide) (by decide), ok_bind,
    putBe32_eq (by decide) (by omega) (Nat.le_of_ble_eq_true rfl), ok_bind,
    putBe32_eq (by decide) (by decide) (Nat.le_of_ble_eq_true rfl), ok_bind,
    putBe32_eq (by decide) (by decide) (Nat.le_of_ble_eq_true rfl), ok_bind,
    putBe32_eq (by decide) (by decide) (Nat.le_of_ble_eq_true rfl), ok_bind,
    putBe64_eq (by decide) (by omega) (Nat.le_of_ble_eq_true rfl), ok_bind,
    putBe32_eq (by decide) (by decide) (Nat.le_of_ble_eq_true rfl), ok_bind,
    putBe32_eq (by decide) (by omega) (Nat.le_of_ble_eq_true rfl), ok_bind,
    putBe32_eq (by decide) (by omega) (Nat.le_of_ble_eq_true rfl), ok_bind,
    putBe32_eq (by decide) (by omega) (Nat.le_of_ble_eq_true rfl)]
  refine ⟨_, rfl, rfl, ?_⟩
  simp only [stored, Int.toNat_natCast]
  generalize hdata : putBytes _ _ _ extent.2 = data
  have hzero : ∀ k, 112 ≤ k → data k = 0 := by
    intro k hk
    simp (disch := omega) only [← hdata, putBytes_of_notMem]
    rfl
  have hrest : ∀ i ∈ List.range' 1 7, extentAt data 104 i = (0, 0) := by
    intro i hi
    rw [List.mem_range'_1] at hi
    exact extentAt_eq_zero fun k hle _ ↦ hzero k (by omega)
  refine ⟨?_, ?_, congrArg₂ List.cons (Prod.ext ?_ ?_) (List.map_congr_left hrest),
    extentsAt_zero fun k hle _ ↦ hzero k (by omega)⟩
  · rw [← UInt16.toNat_inj, ← hdata]
    simp (disch := omega) only [be16_putBytes_of_disjoint]
    exact be16_putBytes (by decide)
  · simp (disch := omega) only [← hdata, be64_putBytes_of_disjoint]
    exact be64_putBytes hsize
  · rw [← hdata]
    exact (congrArg UInt32.toNat (be32_putBytes_of_disjoint (by omega))).trans (be32_putBytes hstart)
  · rw [← hdata]
    exact be32_putBytes hcount

/-! ## The record -/

/-- The characters of a name as they are stored. -/
def nameUnits (name : List Char) : List UInt16 := name.map fun ch ↦ .ofNat ch.toNat

/-- The names that the script takes. -/
def AsciiChars (name : List Char) : Prop := ∀ ch ∈ name, ch.toNat ≠ 0 ∧ ch.toNat ≤ 0x7f

instance (name : List Char) : Decidable (AsciiChars name) := List.decidableBAll _ name

theorem utf16beName_eq (h : AsciiChars name) :
    utf16beName name = .ok (Buf.ofList (name.flatMap fun ch ↦ [0, .ofNat ch.toNat])) := by
  rw [utf16beName, if_neg]
  rintro ⟨ch, hch, hzero | hlarge⟩
  · exact (h ch hch).1 hzero
  · exact absurd (h ch hch).2 (Nat.not_le.mpr hlarge)

theorem utf16beName_of_not (h : ¬AsciiChars name) : utf16beName name = .error (.notAscii name) := by
  rw [utf16beName, if_pos]
  by_contra hno
  push Not at hno
  exact h hno

theorem length_utf16 (name : List Char) :
    (name.flatMap fun ch ↦ [(0 : UInt8), .ofNat ch.toNat]).length = 2 * name.length := by
  simp [Nat.mul_comm]

theorem getD_utf16 {j : ℕ} (hj : j < name.length) :
    (name.flatMap fun ch ↦ [(0 : UInt8), .ofNat ch.toNat]).getD (2 * j) 0 = 0 ∧
      (name.flatMap fun ch ↦ [(0 : UInt8), .ofNat ch.toNat]).getD (2 * j + 1) 0
        = .ofNat name[j].toNat := by
  induction name generalizing j with
  | nil => exact absurd hj (Nat.not_lt_zero j)
  | cons ch name ih =>
    cases j with
    | zero => exact ⟨rfl, rfl⟩
    | succ j => exact ih (Nat.lt_of_succ_lt_succ hj)

/-- A file record of the root folder. -/
structure FileRecord (b : ℕ → UInt8) (o : ℕ) (name : List Char) (size : ℕ) (extent : ℕ × ℕ) :
    Prop where
  keyLength : recordKeyLength b o = 6 + 2 * name.length
  parent : recordParent b o = 2
  units : recordName b o = nameUnits name
  data : FileData b (o + 8 + 2 * name.length) size extent

section FileRecord

variable {b b' : ℕ → UInt8} {o o' size : ℕ} {extent : ℕ × ℕ} {name : List Char}

theorem FileRecord.recordData_eq (h : FileRecord b o name size extent) :
    recordData b o = o + 8 + 2 * name.length := by
  rw [recordData, h.keyLength]
  omega

theorem FileRecord.recordType_eq (h : FileRecord b o name size extent) : recordType b o = 2 := by
  rw [recordType, h.recordData_eq, h.data.type]

theorem FileRecord.recordEnd_eq (h : FileRecord b o name size extent) :
    recordEnd b o = o + (256 + 2 * name.length) := by
  rw [recordEnd_file h.recordType_eq, h.recordData_eq]
  omega

theorem FileRecord.shift (h : FileRecord b o name size extent)
    (heq : ∀ j < 256 + 2 * name.length, b' (o' + j) = b (o + j)) :
    FileRecord b' o' name size extent := by
  have hpart : ∀ p n, p + n ≤ 256 + 2 * name.length → ∀ j < n, b' (o' + p + j) = b (o + p + j) := by
    intro p n hn j hj
    rw [Nat.add_assoc, Nat.add_assoc]
    exact heq (p + j) (by omega)
  have hkey : CaribeOS.be16 b' o' = CaribeOS.be16 b o := be16_shift fun j hj ↦ heq j (by omega)
  have hlen : CaribeOS.be16 b' (o' + 6) = CaribeOS.be16 b (o + 6) :=
    be16_shift (hpart 6 2 (by omega))
  have hname := h.units
  have hnum : (CaribeOS.be16 b (o + 6)).toNat = name.length := by
    have := congrArg List.length hname
    rwa [recordName, List.length_map, List.length_range, nameUnits, List.length_map] at this
  refine ⟨?_, ?_, ?_, ?_⟩
  · rw [recordKeyLength, hkey, ← h.keyLength, recordKeyLength]
  · rw [recordParent, be32_shift (hpart 2 4 (by omega)), ← h.parent, recordParent]
  · rw [← hname, recordName, recordName, hlen]
    refine List.map_congr_left fun j hj ↦ ?_
    rw [List.mem_range, hnum] at hj
    rw [Nat.add_assoc, Nat.add_assoc o, be16_shift (hpart (8 + 2 * j) 2 (by omega))]
  · refine h.data.shift fun j hj ↦ ?_
    rw [Nat.add_assoc o', Nat.add_assoc o]
    exact hpart (8 + 2 * name.length) 248 (by omega) j hj

end FileRecord

/-- **The record that is built.** -/
theorem buildCatalogFileRecord_eq (hfs : HFSPlusImage) (hname : AsciiChars name)
    (hlen : 6 + 2 * name.length < 65536) (hfit : RecordFits hfs fileId size extent) :
    ∃ record, buildCatalogFileRecord hfs name fileId size extent = .ok record ∧
      record.size = 256 + 2 * name.length ∧ FileRecord record.byte 0 name size extent := by
  obtain ⟨data, hdata, hdsize, hfile⟩ := fileRecordData_eq hfit
  generalize hnb : Buf.ofList (name.flatMap fun ch ↦ [0, .ofNat ch.toNat]) = nameBytes
  have hnsize : nameBytes.size = 2 * name.length := by rw [← hnb, ← length_utf16]; rfl
  generalize hkey : stored (Buf.zeros 2) 0 2 (6 + 2 * name.length) = key
  generalize hparent : stored (Buf.zeros 4) 0 4 2 = parent
  generalize hcount : stored (Buf.zeros 2) 0 2 name.length = count
  have hksize : key.size = 2 := by rw [← hkey]; rfl
  have hpsize : parent.size = 4 := by rw [← hparent]; rfl
  have hcsize : count.size = 2 := by rw [← hcount]; rfl
  -- the parts of the record
  have hsize₁ : (key.append parent).size = 6 := by rw [size_append, hksize, hpsize]
  have hsize₂ : ((key.append parent).append count).size = 8 := by
    rw [size_append, hsize₁, hcsize]
  have hsize₃ : (((key.append parent).append count).append nameBytes).size = 8 + 2 * name.length := by
    rw [size_append, hsize₂, hnsize]
  have hsize₄ : ((((key.append parent).append count).append nameBytes).append data).size
      = 256 + 2 * name.length := by
    rw [size_append, hsize₃, hdsize]
    omega
  generalize hrec : ((((key.append parent).append count).append nameBytes).append data) = record
    at hsize₄
  have hbuild : buildCatalogFileRecord hfs name fileId size extent = .ok record := by
    rw [buildCatalogFileRecord, utf16beName_eq hname, ok_bind, hnb,
      putBe16_of_le (show (0 : ℤ) = (0 : ℕ) from rfl) (v := 6 + 2 * name.length)
        (by rw [hnsize]; push_cast; ring) hlen (Nat.le_of_ble_eq_true rfl), ok_bind,
      putBe32_of_le (show (0 : ℤ) = (0 : ℕ) from rfl) (show (2 : ℤ) = (2 : ℕ) from rfl) (by decide)
        (Nat.le_of_ble_eq_true rfl), ok_bind,
      putBe16_of_le (show (0 : ℤ) = (0 : ℕ) from rfl) rfl (by omega) (Nat.le_of_ble_eq_true rfl),
      ok_bind, hdata, ok_bind, hkey, hparent, hcount]
    dsimp only
    rw [hrec, if_neg (by rw [hsize₄]; omega)]
    rfl
  have hpart₁ : ∀ k < 2, record.byte k = key.byte k := by
    intro k hk
    rw [← hrec, byte_append_left (by omega), byte_append_left (by omega), byte_append_left (by omega),
      byte_append_left (by omega)]
  have hpart₂ : ∀ k < 4, record.byte (2 + k) = parent.byte k := by
    intro k hk
    rw [← hrec, byte_append_left (by omega), byte_append_left (by omega), byte_append_left (by omega),
      ← hksize, byte_append_right]
  have hpart₃ : ∀ k < 2, record.byte (6 + k) = count.byte k := by
    intro k hk
    rw [← hrec, byte_append_left (by omega), byte_append_left (by omega), ← hsize₁,
      byte_append_right]
  have hpart₄ : ∀ k < 2 * name.length, record.byte (8 + k) = nameBytes.byte k := by
    intro k hk
    rw [← hrec, byte_append_left (by omega), ← hsize₂, byte_append_right]
  have hpart₅ : ∀ k < 248, record.byte (8 + 2 * name.length + k) = data.byte k := by
    intro k hk
    rw [← hrec, ← hsize₃, byte_append_right]
  have hnum : (CaribeOS.be16 record.byte 6).toNat = name.length := by
    have hshift : CaribeOS.be16 record.byte 6 = CaribeOS.be16 count.byte 0 :=
      be16_shift fun j hj ↦ by rw [hpart₃ j hj, Nat.zero_add]
    rw [hshift, ← hcount]
    exact be16_putBytes (by omega)
  refine ⟨record, hbuild, hsize₄, ⟨?_, ?_, ?_, ?_⟩⟩
  · have hshift : CaribeOS.be16 record.byte 0 = CaribeOS.be16 key.byte 0 :=
      be16_shift fun j hj ↦ by rw [Nat.zero_add, hpart₁ j hj]
    rw [recordKeyLength, hshift, ← hkey]
    exact be16_putBytes hlen
  · have hshift : CaribeOS.be32 record.byte (0 + 2) = CaribeOS.be32 parent.byte 0 :=
      be32_shift fun j hj ↦ by rw [hpart₂ j hj, Nat.zero_add]
    rw [recordParent, ← UInt32.toNat_inj, hshift, ← hparent]
    exact be32_putBytes (by decide)
  · rw [recordName, Nat.zero_add, hnum, nameUnits]
    refine List.ext_getElem (by rw [List.length_map, List.length_range, List.length_map])
      fun j hj hj' ↦ ?_
    rw [List.length_map] at hj'
    rw [List.getElem_map, List.getElem_map, List.getElem_range]
    obtain ⟨hhigh, hlow⟩ := getD_utf16 hj'
    have hb0 : record.byte (8 + 2 * j) = 0 := by
      rw [hpart₄ _ (by omega), ← hnb]
      exact hhigh
    have hb1 : record.byte (8 + 2 * j + 1) = .ofNat name[j].toNat := by
      rw [Nat.add_assoc, hpart₄ _ (by omega), ← hnb]
      exact hlow
    have hch := (hname name[j] (List.getElem_mem _)).2
    rw [← UInt16.toNat_inj, toNat_be16, hb0, hb1, UInt8.toNat_ofNat', UInt16.toNat_ofNat',
      UInt8.toNat_zero]
    omega
  · exact hfile.shift fun j hj ↦ by rw [Nat.zero_add, hpart₅ j hj, Nat.zero_add]

/-! ## The node with the record -/

theorem storeTable_eq (table : List ℕ) (node : Buf) (idx s : ℕ) (hindex : index = idx)
    (hin : idx + (s + table.length) * 2 ≤ node.size) (hfit : ∀ v ∈ table, v < 65536) :
    ∃ node', (table.zipIdx s).foldlM
        (fun node (e : ℕ × ℕ) ↦ putBe16 node (index + e.2 * 2) e.1) node = Except.ok node' ∧
      node'.size = node.size ∧
      (∀ k, k < idx + s * 2 ∨ idx + (s + table.length) * 2 ≤ k → node'.byte k = node.byte k) ∧
      ∀ i (hi : i < table.length),
        (CaribeOS.be16 node'.byte (idx + (s + i) * 2)).toNat = table[i] := by
  induction table generalizing node s with
  | nil => exact ⟨node, rfl, rfl, fun _ _ ↦ rfl, fun i hi ↦ absurd hi (Nat.not_lt_zero i)⟩
  | cons v table ih =>
    rw [List.length_cons] at hin
    rw [List.forall_mem_cons] at hfit
    obtain ⟨node', hloop, hsize, hframe, hentry⟩ :=
      ih (stored node (idx + s * 2) 2 v) (s + 1) (by rw [size_stored]; omega) hfit.2
    refine ⟨node', ?_, hsize, fun k hk ↦ ?_, fun i hi ↦ ?_⟩
    · rw [List.zipIdx_cons, List.foldlM_cons]
      rw [putBe16_of_le (o := idx + s * 2) (by rw [hindex]; push_cast; ring) rfl hfit.1 (by omega),
        ok_bind, hloop]
    · rw [List.length_cons] at hk
      rw [hframe k (by omega)]
      exact putBytes_of_notMem (by omega)
    · cases i with
      | zero =>
        have hkept : CaribeOS.be16 node'.byte (idx + (s + 0) * 2)
            = CaribeOS.be16 (stored node (idx + s * 2) 2 v).byte (idx + (s + 0) * 2) :=
          be16_congr fun k hle hlt ↦ hframe k (by omega)
        rw [hkept]
        exact be16_putBytes hfit.1
      | succ i =>
        rw [List.length_cons] at hi
        have := hentry i (by omega)
        rwa [show s + 1 + i = s + (i + 1) by omega] at this

/-- The new record can be put into the leaf. -/
structure CanInsert (b : ℕ → UInt8) (n : ℕ) (name : List Char) : Prop where
  leaf : b 8 = 255
  ascii : AsciiChars name
  room : freeOffset b n + (256 + 2 * name.length) + 2 * (numRecords b + 2) ≤ n

/-- The node `b'` is `b` with a file record of the root folder put in. -/
structure Inserted (b b' : ℕ → UInt8) (n : ℕ) (name : List Char) (size : ℕ) (extent : ℕ × ℕ) :
    Prop where
  can : CanInsert b n name
  descriptor : ∀ k < 10, b' k = b k
  num : numRecords b' = numRecords b + 1
  offset : ∀ i < numRecords b, recordOffset b' n i = recordOffset b n i
  new : recordOffset b' n (numRecords b) = freeOffset b n
  free : recordOffset b' n (numRecords b + 1) = freeOffset b n + (256 + 2 * name.length)
  old : ∀ k, 14 ≤ k → k < freeOffset b n → b' k = b k
  zero : ∀ k, freeOffset b n + (256 + 2 * name.length) ≤ k → k < n - 2 * (numRecords b + 2) →
    b' k = b k
  record : FileRecord b' (freeOffset b n) name size extent
  behind : ∀ k, n ≤ k → b' k = b k

section Insert

variable {hfs : HFSPlusImage} {node : Buf} {b : ℕ → UInt8} {name : List Char} {fileId size : ℕ}
  {extent : ℕ × ℕ}

theorem readTable_eq (hshows : Shows node n b) (hleaf : LeafRecords b n)
    (hindex : index = n - 2 * (numRecords b + 1)) :
    (List.range (numRecords b + 1)).mapM (fun (i : ℕ) ↦ be16 node (index + i * 2))
      = .ok ((List.range (numRecords b + 1)).map fun i ↦ recordOffset b n (numRecords b - i)) := by
  have htable := hleaf.table
  refine mapM_eq_ok fun i hi ↦ ?_
  rw [List.mem_range] at hi
  rw [hshows.be16_eq_ok_iff (o := n - 2 * (numRecords b - i + 1)) (by rw [hindex]; omega)]
  exact ⟨by omega, rfl⟩

/-- **Putting the record into the leaf.** -/
theorem insertRecord_eq (hshows : Shows node hfs.nodeSize b)
    (hleaf : b 8 = 255 → LeafRecords b hfs.nodeSize) (hns : hfs.nodeSize < 65536)
    (hfit : RecordFits hfs fileId size extent) (hcan : CanInsert b hfs.nodeSize name) :
    ∃ node', insertRecord hfs node name fileId size extent = .ok node' ∧
      node'.size = hfs.nodeSize ∧
      Inserted b (overlay hfs.nodeSize node'.byte b) hfs.nodeSize name size extent := by
  have hrecords := hleaf hcan.leaf
  have hroom := hcan.room
  have heven := hrecords.free_even
  have hfree := hrecords.free_ge
  obtain ⟨record, hbuild, hrsize, hrecord⟩ :=
    buildCatalogFileRecord_eq hfs hcan.ascii (by omega) hfit
  have halign : align2 (freeOffset b hfs.nodeSize) = freeOffset b hfs.nodeSize := by
    rw [align2]
    omega
  -- the record goes to the free space
  obtain ⟨hssize, hsbyte⟩ := splice_eq node record
    (freeOffset b hfs.nodeSize) (by rw [hshows.size, hrsize]; omega)
  generalize hspliced : splice node (freeOffset b hfs.nodeSize)
    (freeOffset b hfs.nodeSize + record.size) record = spliced at hssize hsbyte
  rw [hshows.size] at hssize hsbyte
  -- the count, and the table with two new entries in front
  generalize htail : (List.range (numRecords b)).map
    (fun i ↦ recordOffset b hfs.nodeSize (numRecords b - (i + 1))) = tail
  have htlen : tail.length = numRecords b := by rw [← htail, List.length_map, List.length_range]
  have htable : (List.range (numRecords b + 1)).map
      (fun i ↦ recordOffset b hfs.nodeSize (numRecords b - i))
        = freeOffset b hfs.nodeSize :: tail := by
    rw [List.range_succ_eq_map, List.map_cons, List.map_map, ← htail]
    rfl
  obtain ⟨node', hstore, hnsize, hframe, hentry⟩ := storeTable_eq
    ((freeOffset b hfs.nodeSize + record.size) :: freeOffset b hfs.nodeSize :: tail)
    (stored spliced 10 2 (numRecords b + 1)) (hfs.nodeSize - 2 * (numRecords b + 2)) 0
    (by omega : (hfs.nodeSize : ℤ) - 2 * (numRecords b + 2) = _)
    (by rw [size_stored, hssize, List.length_cons, List.length_cons, htlen]; omega) (by
      intro v hv
      rw [List.mem_cons, List.mem_cons] at hv
      rcases hv with rfl | rfl | hv
      · omega
      · omega
      · rw [← htail] at hv
        obtain ⟨i, -, rfl⟩ := List.mem_map.mp hv
        exact recordOffset_lt _ _ _)
  rw [size_stored, hssize] at hnsize
  simp only [List.length_cons, htlen, Nat.zero_add, Nat.zero_mul, Nat.add_zero] at hframe hentry
  have hinsert : insertRecord hfs node name fileId size extent = .ok node' := by
    have hnum : be16 node 10 = .ok (numRecords b) :=
      (hshows.be16_eq_ok_iff (show (10 : ℤ) = (10 : ℕ) from rfl)).mpr ⟨by omega, rfl⟩
    rw [insertRecord, if_neg (by rw [hshows.size]; omega),
      if_neg (by rw [hshows.byte 8 (by omega), hcan.leaf]; exact not_not.mpr rfl), hnum, ok_bind]
    dsimp only
    rw [readTable_eq hshows hrecords rfl, ok_bind, htable, List.headD_cons, List.tail_cons, hbuild,
      ok_bind, halign, if_neg (by omega), hspliced,
      putBe16_of_le (show (10 : ℤ) = (10 : ℕ) from rfl) (v := numRecords b + 1) (by push_cast; rfl)
        (by omega) (by rw [hssize]; omega), ok_bind, hstore]
  -- bytes below the table
  have hbelow : ∀ k, k < hfs.nodeSize - 2 * (numRecords b + 2) → k < 10 ∨ 12 ≤ k →
      overlay hfs.nodeSize node'.byte b k
        = if freeOffset b hfs.nodeSize ≤ k ∧ k < freeOffset b hfs.nodeSize + record.size then
            record.byte (k - freeOffset b hfs.nodeSize) else b k := by
    intro k hk hne
    rw [overlay_of_lt (by omega), hframe k (by omega)]
    refine (putBytes_of_notMem (by omega)).trans ?_
    rw [hsbyte k (by omega), hshows.byte k (by omega)]
  have hslot : ∀ i < numRecords b + 2,
      recordOffset (overlay hfs.nodeSize node'.byte b) hfs.nodeSize i
        = (CaribeOS.be16 node'.byte (hfs.nodeSize - 2 * (numRecords b + 2)
            + (numRecords b + 1 - i) * 2)).toNat := by
    intro i hi
    rw [recordOffset, show hfs.nodeSize - 2 * (numRecords b + 2) + (numRecords b + 1 - i) * 2
      = hfs.nodeSize - 2 * (i + 1) by omega,
      be16_congr fun k _ hlt ↦ overlay_of_lt (by omega)]
  have hnum : numRecords (overlay hfs.nodeSize node'.byte b) = numRecords b + 1 := by
    have hkept : CaribeOS.be16 (overlay hfs.nodeSize node'.byte b) 10
        = CaribeOS.be16 (stored spliced 10 2 (numRecords b + 1)).byte 10 :=
      be16_congr fun k hle hlt ↦ by rw [overlay_of_lt (by omega), hframe k (by omega)]
    rw [numRecords, hkept]
    exact be16_putBytes (by omega)
  refine ⟨node', hinsert, hnsize, ⟨hcan, fun k hk ↦ ?_, hnum, fun i hi ↦ ?_, ?_, ?_, fun k hle hlt ↦ ?_,
    fun k hle hlt ↦ ?_, ?_, fun k hk ↦ overlay_of_le hk⟩⟩
  · rw [hbelow k (by omega) (by omega), if_neg (by omega)]
  · have hget := hentry (numRecords b + 1 - i) (by omega)
    rw [hslot i (by omega), hget]
    obtain ⟨j, hj⟩ : ∃ j, numRecords b + 1 - i = j + 2 := ⟨numRecords b - 1 - i, by omega⟩
    simp only [hj, List.getElem_cons_succ]
    simp only [← htail, List.getElem_map, List.getElem_range]
    rw [show numRecords b - (j + 1) = i by omega]
  · have hget := hentry 1 (by omega)
    rw [hslot _ (by omega), Nat.add_sub_cancel_left, hget]
    rfl
  · have hget := hentry 0 (by omega)
    rw [hslot _ (by omega), Nat.sub_self, hget, ← hrsize]
    rfl
  · rw [hbelow k (by omega) (by omega), if_neg (by omega)]
  · rw [hbelow k (by omega) (by omega), if_neg (by omega)]
  · refine hrecord.shift fun j hj ↦ ?_
    rw [hbelow _ (by omega) (by omega), if_pos (by omega), Nat.add_sub_cancel_left, Nat.zero_add]

theorem canInsert_of_insertRecord {node' : Buf} (hshows : Shows node hfs.nodeSize b)
    (hleaf : b 8 = 255 → LeafRecords b hfs.nodeSize) (hfit : RecordFits hfs fileId size extent)
    (h : insertRecord hfs node name fileId size extent = .ok node') :
    CanInsert b hfs.nodeSize name := by
  rw [insertRecord] at h
  split_ifs at h with hshort hkind
  rw [hshows.size, Nat.not_le] at hshort
  rw [not_not, hshows.byte 8 hshort] at hkind
  have hrecords := hleaf hkind
  have heven := hrecords.free_even
  obtain ⟨records, hnum, h⟩ := bind_eq_ok.mp h
  obtain ⟨-, rfl⟩ := (hshows.be16_eq_ok_iff (show (10 : ℤ) = (10 : ℕ) from rfl)).mp hnum
  obtain ⟨table, hread, h⟩ := bind_eq_ok.mp h
  have htab := (readTable_eq hshows hrecords rfl).symm.trans hread
  obtain ⟨record, hbuild, h⟩ := bind_eq_ok.mp h
  have hascii : AsciiChars name := by
    by_contra hnot
    rw [buildCatalogFileRecord, utf16beName_of_not hnot] at hbuild
    cases hbuild
  have hlen : 6 + 2 * name.length < 65536 := by
    rw [buildCatalogFileRecord, utf16beName_eq hascii, ok_bind] at hbuild
    obtain ⟨key, hkey, -⟩ := bind_eq_ok.mp hbuild
    have hvalue := (value_of_packInto hkey).2
    have hnsize : (Buf.ofList (name.flatMap fun ch ↦ [0, .ofNat ch.toNat])).size
        = 2 * name.length := length_utf16 name
    omega
  obtain ⟨record', hbuild', hrsize, -⟩ := buildCatalogFileRecord_eq hfs hascii hlen hfit
  obtain rfl : record' = record := Except.ok.inj (hbuild'.symm.trans hbuild)
  have hfirst : table.headD 0 = freeOffset b hfs.nodeSize := by
    rw [← Except.ok.inj htab, List.range_succ_eq_map, List.map_cons]
    rfl
  have halign : align2 (freeOffset b hfs.nodeSize) = freeOffset b hfs.nodeSize := by
    rw [align2]
    omega
  dsimp only at h
  rw [hfirst, halign, hrsize] at h
  split_ifs at h with hroom
  refine ⟨hkind, hascii, ?_⟩
  change ¬((hfs.nodeSize : ℤ) - 2 * ((numRecords b : ℤ) + 2) < _) at hroom
  omega

end Insert

end HfsScript

end CaribeOS
