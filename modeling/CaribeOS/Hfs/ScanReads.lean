import CaribeOS.Foundation.ByteProgram
import CaribeOS.Hfs.Scan

/-!
# Which bytes of a node the booter reads

`catalog_scan_child` checks the offset of a record and the end of its key against the size of the
node, and not the length of the name or the size of the record. Here the scan of one node is written
as a program that loads single bytes (`scanNodeProg`); it computes what `scanNode` does
(`val_scanNodeProg`). It reads inside the node exactly if the names of all records it comes to end
there, and the fields of the record it ends at (`scan_reads_inside_iff`).

The name is read up to its 128th character, of which the last one is dropped.
-/

namespace CaribeOS

open ByteMemory ByteProgram

/-! ## Fields -/

def loadByte (a : UInt32) : Prog UInt8 := .loadField 1 (fun b ↦ b 0) a

def loadBe16 (a : UInt32) : Prog UInt16 := .loadField 2 (fun b ↦ be16 b 0) a

def loadBe32 (a : UInt32) : Prog UInt32 := .loadField 4 (fun b ↦ be32 b 0) a

def loadBe64 (a : UInt32) : Prog UInt64 := .loadField 8 (fun b ↦ be64 b 0) a

/-- The eight extents of a fork. -/
def loadExtents (a : UInt32) : Prog (Fin 8 → Extent) :=
  .loadField 64 (fun b i ↦ ⟨be32 b (8 * i), be32 b (8 * i + 4)⟩) a

section Fields

variable (a : UInt32) (m : Mem)

@[simp] theorem val_loadByte : (loadByte a).val m = m a := by
  refine (Prog.val_loadField a m fun b b' h ↦ h 0 Nat.one_pos).trans ?_
  exact congrArg m (add_ofNat_zero a)

@[simp] theorem mem_loadBe16 : (loadBe16 a).mem m = m := Prog.mem_loadField a m

@[simp] theorem mem_loadBe32 : (loadBe32 a).mem m = m := Prog.mem_loadField a m

@[simp] theorem val_loadBe16 : (loadBe16 a).val m = rdbe16 m a :=
  Prog.val_loadField a m fun _ _ h ↦ be16_congr fun k _ hlt ↦ h k (by omega)

@[simp] theorem val_loadBe32 : (loadBe32 a).val m = rdbe32 m a :=
  Prog.val_loadField a m fun _ _ h ↦ be32_congr fun k _ hlt ↦ h k (by omega)

@[simp] theorem val_loadBe64 : (loadBe64 a).val m = rdbe64 m a :=
  Prog.val_loadField a m fun _ _ h ↦ be64_congr fun k _ hlt ↦ h k (by omega)

theorem val_loadExtents (i : Fin 8) :
    (loadExtents a).val m i
      = ⟨rdbe32 m (a + .ofNat (8 * i)), rdbe32 m (a + .ofNat (8 * i + 4))⟩ := by
  have hval := Prog.val_loadField a m (n := 64)
    (f := fun b (i : Fin 8) ↦ (⟨be32 b (8 * i), be32 b (8 * i + 4)⟩ : Extent)) fun b b' h ↦ by
      funext i
      rw [be32_congr fun k _ hlt ↦ h k (by omega), be32_congr fun k _ hlt ↦ h k (by omega)]
  rw [loadExtents, hval]
  simp only [be32, rdbe32, bytesAt, add_ofNat_add, Nat.add_zero]

end Fields

/-! ## The scan as a program -/

/-- The loop of `ascii_name_from_utf16be` from character `out` on. The character is read before the
room for it is checked. -/
def loadName (src : UInt32) (cap : ℕ) : ℕ → ℕ → Prog (List UInt8)
  | 0, _ => pure []
  | chars + 1, out => do
    let ch ← loadBe16 (src + .ofNat (2 * out))
    if cap ≤ out + 1 then pure []
    else do
      let rest ← loadName src cap chars (out + 1)
      pure (asciiChar ch :: rest)

/-- `fork_from_file_record`. -/
def loadFileFork (rec : UInt32) : Prog ForkMeta := do
  let size ← loadBe64 (rec + 88)
  let ext ← loadExtents (rec + 104)
  pure ⟨size, ext⟩

section Code

variable (q : ScanQuery) (secbuf nodeSize : UInt32)

/-- One turn of the record loop. -/
def scanRecordProg (recOff : UInt32) : Prog (Option UInt16 × Option ScanHit) :=
  if nodeSize ≤ recOff + 8 then pure (none, none)
  else do
    let key := secbuf + recOff
    let keyLen ← loadBe16 key
    let recParent ← loadBe32 (key + 2)
    let nameLen ← loadBe16 (key + 6)
    let dataOff := recOff + 2 + keyLen.toUInt32
    if nodeSize < dataOff + 2 then pure (none, none)
    else do
      let name ← loadName (key + 8) 128 nameLen.toNat 0
      if recParent ≠ q.parent ∨ ¬sEq name q.target then pure (none, none)
      else do
        let data := secbuf + dataOff
        let rtype ← loadBe16 data
        if rtype = 1 ∧ q.folderID then do
          let id ← loadBe32 (data + 8)
          pure (some rtype, some (.folder id))
        else if rtype = 2 ∧ q.fileFork then do
          let fork ← loadFileFork data
          pure (some rtype, some (.file fork))
        else pure (some rtype, none)

/-- The record loop. -/
def scanRecordsProg (idx : UInt32) : List ℕ → UInt16 → Prog (UInt16 × Option ScanHit)
  | [], recordType => pure (recordType, none)
  | r :: rs, recordType => do
    let recOff ← loadBe16 (idx + .ofNat (2 * r))
    let result ← scanRecordProg q secbuf nodeSize recOff.toUInt32
    match result with
    | (written, some hit) => pure (written.getD recordType, some hit)
    | (written, none) => scanRecordsProg idx rs (written.getD recordType)

/-- The node in the staging buffer. -/
def scanNodeProg (recordType : UInt16) : Prog (UInt16 × Option ScanHit) := do
  let kind ← loadByte (secbuf + 8)
  if kind ≠ 255 then pure (recordType, none)
  else do
    let num ← loadBe16 (secbuf + 10)
    if num = 0 ∨ nodeSize < 2 * (num.toUInt32 + 1) then pure (recordType, none)
    else
      scanRecordsProg q secbuf nodeSize (secbuf + nodeSize - 2 * (num.toUInt32 + 1))
        (List.range num.toNat) recordType

end Code

/-! ## What the program computes -/

section Value

variable {q : ScanQuery} {secbuf nodeSize : UInt32} {m : Mem}

@[simp] theorem stores_loadName (src : UInt32) (cap chars out : ℕ) (m : Mem) :
    (loadName src cap chars out).stores m = [] := by
  induction chars generalizing out with
  | zero => rfl
  | succ chars ih => simp [loadName, loadBe16, ih]

theorem val_loadName (src : UInt32) (cap chars out : ℕ) (m : Mem) :
    (loadName src cap chars out).val m
      = ((List.range' out chars).map fun i ↦ asciiChar (rdbe16 m (src + .ofNat (2 * i)))).take
          (cap - 1 - out) := by
  induction chars generalizing out with
  | zero => exact List.take_nil.symm
  | succ chars ih =>
    rw [loadName, Prog.val_bind, Prog.val_ite, val_loadBe16, List.range'_succ, List.map_cons]
    by_cases hcap : cap ≤ out + 1
    · rw [if_pos hcap, show cap - 1 - out = 0 by omega]
      rfl
    · rw [if_neg hcap, Prog.val_bind, Prog.val_pure, mem_loadBe16, ih,
        show cap - 1 - out = cap - 1 - (out + 1) + 1 by omega, List.take_succ_cons]

theorem val_loadName_start (src : UInt32) (cap : ℕ) (chars : UInt16) (m : Mem) :
    (loadName src cap chars.toNat 0).val m = asciiNameFromUtf16be m src chars cap := by
  rw [val_loadName, asciiNameFromUtf16be, List.range_eq_range', Nat.sub_zero]

theorem val_loadFileFork (rec : UInt32) (m : Mem) :
    (loadFileFork rec).val m = forkFromFileRecord m rec := by
  have hext : (loadExtents (rec + 104)).val m = (forkFromFileRecord m rec).ext := by
    funext i
    rw [val_loadExtents, forkFromFileRecord, show (104 : UInt32) = .ofNat 104 from rfl,
      add_ofNat_add, add_ofNat_add, show 104 + (8 * i.val + 4) = 108 + 8 * i.val by omega]
  rw [loadFileFork, Prog.val_bind, Prog.val_bind, Prog.val_pure, val_loadBe64,
    Prog.mem_of_stores (by simp [loadBe64]), hext]
  rfl

@[simp] theorem stores_scanRecordProg (recOff : UInt32) :
    (scanRecordProg q secbuf nodeSize recOff).stores m = [] := by
  simp [scanRecordProg, loadBe16, loadBe32, loadFileFork, loadBe64, loadExtents]

theorem val_scanRecordProg (recOff : UInt32) :
    (scanRecordProg q secbuf nodeSize recOff).val m = scanRecord q secbuf nodeSize m recOff := by
  have hname : ∀ src chars, (loadName src 128 chars 0).mem m = m :=
    fun src chars ↦ Prog.mem_of_stores (stores_loadName _ _ _ _ _)
  simp only [scanRecordProg, scanRecord, Prog.val_ite, Prog.val_bind, Prog.val_pure, val_loadBe16,
    val_loadBe32, mem_loadBe16, mem_loadBe32, val_loadName_start, hname, val_loadFileFork]

theorem val_scanRecordsProg (idx : UInt32) (rs : List ℕ) (recordType : UInt16) :
    (scanRecordsProg q secbuf nodeSize idx rs recordType).val m
      = scanRecords q secbuf nodeSize m idx rs recordType := by
  induction rs generalizing recordType with
  | nil => rfl
  | cons r rs ih =>
    rw [scanRecordsProg, Prog.val_bind, Prog.val_bind, mem_loadBe16, val_loadBe16,
      val_scanRecordProg, Prog.mem_of_stores (stores_scanRecordProg _), scanRecords]
    rcases scanRecord q secbuf nodeSize m _ with ⟨written, _ | hit⟩
    · exact ih _
    · rfl

/-- **The program computes the scan of a node.** -/
theorem val_scanNodeProg (recordType : UInt16) :
    (scanNodeProg q secbuf nodeSize recordType).val m
      = scanNode q secbuf nodeSize m recordType := by
  have hbyte : ∀ a, (loadByte a).mem m = m := fun a ↦ Prog.mem_loadField a m
  simp only [scanNodeProg, scanNode, Prog.val_ite, Prog.val_bind, Prog.val_pure, val_loadByte,
    hbyte, val_loadBe16, mem_loadBe16, val_scanRecordsProg]

end Value

/-! ## Which bytes it reads -/

/-- What must lie inside the node for the record at `o`: the name, of which 128 characters are read
at most, and of a record that the scan takes the number of the folder or the data fork. -/
def ReadsInside (q : ScanQuery) (b : ℕ → UInt8) (n o : ℕ) : Prop :=
  o + 8 < n → recordData b o + 2 ≤ n →
    o + 8 + 2 * min (recordName b o).length 128 ≤ n ∧
      (Takes q b n o → recordData b o + (if recordType b o = 1 then 12 else 168) ≤ n)

/-- What must lie inside the node: its kind, the number of records, and what `ReadsInside` says of
every record up to the one that the scan takes. -/
@[mk_iff]
structure ScanInside (q : ScanQuery) (b : ℕ → UInt8) (n : ℕ) : Prop where
  kind : 9 ≤ n
  count : b 8 = 255 → 12 ≤ n
  record : ∀ pre i post, scannedSlots b n = pre ++ i :: post →
    (∀ j ∈ pre, ¬Takes q b n (recordOffset b n j)) → ReadsInside q b n (recordOffset b n i)

section Footprint

variable {q : ScanQuery} {secbuf nodeSize : UInt32} {m : Mem}

theorem loadsIn_loadName {cap chars out o n : ℕ} (hout : out < cap)
    (hend : o + 2 * (out + chars) ≤ 4294967296) :
    (loadName (secbuf + .ofNat o) cap chars out).LoadsIn m secbuf n ↔
      chars = 0 ∨ o + 2 * (out + min chars (cap - out)) ≤ n := by
  induction chars generalizing out with
  | zero => simp [loadName]
  | succ chars ih =>
    have hfirst : (loadBe16 (secbuf + .ofNat (o + 2 * out))).LoadsIn m secbuf n ↔
        o + 2 * out + 2 ≤ n := Prog.loadsIn_loadField m secbuf n two_pos (by omega)
    rw [loadName, Prog.loadsIn_bind, add_ofNat_add, hfirst, mem_loadBe16]
    by_cases hcap : cap ≤ out + 1
    · rw [if_pos hcap, and_iff_left (Prog.loadsIn_pure _ _ _ _)]
      omega
    · rw [if_neg hcap, Prog.loadsIn_bind, ih (by omega) (by omega),
        and_iff_left (Prog.loadsIn_pure _ _ _ _)]
      omega

theorem loadsIn_loadFileFork {o n : ℕ} (hend : o + 168 ≤ 4294967296) :
    (loadFileFork (secbuf + .ofNat o)).LoadsIn m secbuf n ↔ o + 168 ≤ n := by
  have hsize : (loadBe64 (secbuf + .ofNat (o + 88))).LoadsIn m secbuf n ↔ o + 88 + 8 ≤ n :=
    Prog.loadsIn_loadField m secbuf n (by decide) (by omega)
  have hext : (loadExtents (secbuf + .ofNat (o + 104))).LoadsIn m secbuf n ↔ o + 104 + 64 ≤ n :=
    Prog.loadsIn_loadField m secbuf n (by decide) (by omega)
  rw [loadFileFork, Prog.loadsIn_bind, Prog.loadsIn_bind, Prog.mem_of_stores (by simp [loadBe64]),
    add_ofNat_lit, add_ofNat_lit, hsize, hext, and_iff_left (Prog.loadsIn_pure _ _ _ _)]
  omega

/-- The number of the folder or the data fork, if the record is of the kind asked for. -/
theorem loadsIn_wanted {b : ℕ → UInt8} {n o : ℕ} (hend : recordData b o + 168 ≤ 4294967296) :
    (if recordType b o = 1 ∧ q.folderID then do
        let id ← loadBe32 (secbuf + .ofNat (recordData b o) + 8)
        pure (some (recordType b o), some (.folder id))
      else if recordType b o = 2 ∧ q.fileFork then do
        let fork ← loadFileFork (secbuf + .ofNat (recordData b o))
        pure (some (recordType b o), some (.file fork))
      else pure (some (recordType b o), none) : Prog (Option UInt16 × Option ScanHit)).LoadsIn
        m secbuf n ↔
      (IsWanted b o q → recordData b o + (if recordType b o = 1 then 12 else 168) ≤ n) := by
  have hid : (loadBe32 (secbuf + .ofNat (recordData b o) + 8)).LoadsIn m secbuf n ↔
      recordData b o + 8 + 4 ≤ n := by
    rw [add_ofNat_lit]
    exact Prog.loadsIn_loadField m secbuf n (by decide) (by omega)
  by_cases hone : recordType b o = 1 ∧ q.folderID
  · rw [if_pos hone, if_pos hone.1, Prog.loadsIn_bind, hid,
      and_iff_left (Prog.loadsIn_pure _ _ _ _)]
    exact ⟨fun h _ ↦ h, fun h ↦ h (Or.inl hone)⟩
  rw [if_neg hone]
  by_cases htwo : recordType b o = 2 ∧ q.fileFork
  · have htype : ¬recordType b o = 1 := by
      rw [htwo.1]
      decide
    rw [if_pos htwo, if_neg htype, Prog.loadsIn_bind, loadsIn_loadFileFork hend,
      and_iff_left (Prog.loadsIn_pure _ _ _ _)]
    exact ⟨fun h _ ↦ h, fun h ↦ h (Or.inr htwo)⟩
  · rw [if_neg htwo]
    exact iff_of_true (Prog.loadsIn_pure _ _ _ _) fun hwanted ↦ (hwanted.elim hone htwo).elim

/-- **One record.** -/
theorem loadsIn_scanRecordProg {o : ℕ} (ho : o < 65536) :
    (scanRecordProg q secbuf nodeSize (.ofNat o)).LoadsIn m secbuf nodeSize.toNat ↔
      ReadsInside q (bytesAt m secbuf) nodeSize.toNat o := by
  have hview : Staged m secbuf 4294967296 (bytesAt m secbuf) := fun k _ ↦ rfl
  generalize bytesAt m secbuf = b at hview ⊢
  have hlen : recordKeyLength b o < 65536 := UInt16.toNat_lt _
  have hchars : (be16 b (o + 6)).toNat < 65536 := UInt16.toNat_lt _
  have hdata : recordData b o = o + 2 + recordKeyLength b o := rfl
  have hname : (recordName b o).length = (be16 b (o + 6)).toNat := by
    rw [recordName, List.length_map, List.length_range]
  rw [scanRecordProg, ReadsInside]
  by_cases hkey : o + 8 < nodeSize.toNat
  swap
  · rw [if_pos ((nodeSize_le_ofNat_iff ho).mpr hkey)]
    exact iff_of_true (Prog.loadsIn_pure _ _ _ _) fun h ↦ absurd h hkey
  rw [if_neg ((nodeSize_le_ofNat_iff ho).not_left.mpr hkey), forall_prop_of_true hkey]
  -- the fields of the key
  have hkeyLen : (loadBe16 (secbuf + .ofNat o)).LoadsIn m secbuf nodeSize.toNat :=
    (Prog.loadsIn_loadField m secbuf _ two_pos (by omega)).mpr (by omega)
  have hparent : (loadBe32 (secbuf + .ofNat o + 2)).LoadsIn m secbuf nodeSize.toNat := by
    rw [add_ofNat_lit]
    exact (Prog.loadsIn_loadField m secbuf _ four_pos (by omega)).mpr (by omega)
  have hnameLen : (loadBe16 (secbuf + .ofNat o + 6)).LoadsIn m secbuf nodeSize.toNat := by
    rw [add_ofNat_lit]
    exact (Prog.loadsIn_loadField m secbuf _ two_pos (by omega)).mpr (by omega)
  have hparentVal : rdbe32 m (secbuf + .ofNat o + 2) = recordParent b o := by
    rw [add_ofNat_lit]
    exact hview.rdbe32 (by omega)
  have hnameVal : rdbe16 m (secbuf + .ofNat o + 6) = be16 b (o + 6) := by
    rw [add_ofNat_lit]
    exact hview.rdbe16 (by omega)
  simp only [Prog.loadsIn_bind, hkeyLen, hparent, hnameLen, mem_loadBe16, mem_loadBe32,
    val_loadBe16, val_loadBe32, true_and, hview.rdbe16 (o := o) (by omega), hparentVal, hnameVal,
    ofNat_recordData]
  by_cases hin : recordData b o + 2 ≤ nodeSize.toNat
  swap
  · rw [if_pos ((nodeSize_lt_recordData_iff ho).mpr hin)]
    exact iff_of_true (Prog.loadsIn_pure _ _ _ _) fun h ↦ absurd h hin
  rw [if_neg ((nodeSize_lt_recordData_iff ho).not_left.mpr hin), forall_prop_of_true hin,
    Prog.loadsIn_bind, Prog.mem_of_stores (stores_loadName _ _ _ _ _), val_loadName_start,
    add_ofNat_lit, hview.asciiName (by omega),
    loadsIn_loadName (by decide) (by omega)]
  refine and_congr (by omega) ?_
  by_cases hmatch : recordParent b o ≠ q.parent ∨
      ¬sEq (((recordName b o).map asciiChar).take 127) q.target
  · rw [if_pos hmatch]
    refine iff_of_true (Prog.loadsIn_pure _ _ _ _) ?_
    rintro ⟨-, -, hp, hs, -⟩
    exact (hmatch.elim (fun h ↦ h hp) fun h ↦ h ((sEq_iff _ _).mpr hs)).elim
  have htype : (loadBe16 (secbuf + .ofNat (recordData b o))).LoadsIn m secbuf nodeSize.toNat :=
    (Prog.loadsIn_loadField m secbuf _ two_pos (by omega)).mpr hin
  have htypeVal : rdbe16 m (secbuf + .ofNat (recordData b o)) = recordType b o :=
    hview.rdbe16 (by omega)
  rw [if_neg hmatch, Prog.loadsIn_bind, and_iff_right htype, mem_loadBe16, val_loadBe16, htypeVal]
  rw [not_or, not_not, not_not, sEq_iff] at hmatch
  have htakes : Takes q b nodeSize.toNat o ↔ IsWanted b o q :=
    ⟨fun h ↦ h.2.2.2.2, fun h ↦ ⟨hkey, hin, hmatch.1, hmatch.2, h⟩⟩
  rw [htakes]
  exact loadsIn_wanted (by omega)

/-- A search comes to the first element, and to the others if it does not end there. -/
theorem forall_reached_cons {α : Type*} {T R : α → Prop} {x : α} {xs : List α} :
    (∀ pre y post, x :: xs = pre ++ y :: post → (∀ z ∈ pre, ¬T z) → R y) ↔
      R x ∧ (¬T x → ∀ pre y post, xs = pre ++ y :: post → (∀ z ∈ pre, ¬T z) → R y) := by
  constructor
  · intro h
    refine ⟨h [] x xs rfl fun z hz ↦ absurd hz List.not_mem_nil, ?_⟩
    intro hx pre y post hxs hpre
    exact h (x :: pre) y post (congrArg (x :: ·) hxs) (List.forall_mem_cons.mpr ⟨hx, hpre⟩)
  · rintro ⟨hx, hrest⟩ pre y post heq hpre
    rcases pre with _ | ⟨z, pre⟩
    · obtain ⟨rfl, -⟩ := List.cons.inj heq
      exact hx
    · obtain ⟨rfl, hxs⟩ := List.cons.inj heq
      obtain ⟨hz, hpre⟩ := List.forall_mem_cons.mp hpre
      exact hrest hz pre y post hxs hpre

/-- **The record loop**: it comes to an entry if it has not taken an earlier one. -/
theorem loadsIn_scanRecordsProg {idx : UInt32} {slot : ℕ → ℕ} {rs : List ℕ}
    (hslot : ∀ r ∈ rs, (rdbe16 m (idx + .ofNat (2 * r))).toUInt32
      = .ofNat (recordOffset (bytesAt m secbuf) nodeSize.toNat (slot r)))
    (hread : ∀ r ∈ rs, (loadBe16 (idx + .ofNat (2 * r))).LoadsIn m secbuf nodeSize.toNat)
    (recordType : UInt16) :
    (scanRecordsProg q secbuf nodeSize idx rs recordType).LoadsIn m secbuf nodeSize.toNat ↔
      ∀ pre i post, rs.map slot = pre ++ i :: post →
        (∀ j ∈ pre, ¬Takes q (bytesAt m secbuf) nodeSize.toNat
          (recordOffset (bytesAt m secbuf) nodeSize.toNat j)) →
        ReadsInside q (bytesAt m secbuf) nodeSize.toNat
          (recordOffset (bytesAt m secbuf) nodeSize.toNat i) := by
  induction rs generalizing recordType with
  | nil => exact iff_of_true (Prog.loadsIn_pure _ _ _ _) fun pre i post h ↦ by simp at h
  | cons r rs ih =>
    have hlt := recordOffset_lt (bytesAt m secbuf) nodeSize.toNat (slot r)
    have hhit : (scanRecord q secbuf nodeSize m (.ofNat _)).2 = _ := scanRecord_hit_bytesAt hlt
    rw [List.map_cons, forall_reached_cons, scanRecordsProg, Prog.loadsIn_bind,
      and_iff_right (hread r List.mem_cons_self), mem_loadBe16, val_loadBe16,
      hslot r List.mem_cons_self, Prog.loadsIn_bind, loadsIn_scanRecordProg hlt, val_scanRecordProg,
      Prog.mem_of_stores (stores_scanRecordProg _)]
    refine and_congr_right fun _ ↦ ?_
    generalize scanRecord q secbuf nodeSize m _ = result at hhit ⊢
    rcases result with ⟨written, _ | hit⟩
    · rw [forall_prop_of_true (hitAt_eq_none_iff.mp hhit.symm)]
      exact ih (fun r' hr' ↦ hslot r' (List.mem_cons_of_mem r hr'))
        (fun r' hr' ↦ hread r' (List.mem_cons_of_mem r hr')) _
    · refine iff_of_true (Prog.loadsIn_pure _ _ _ _) fun hmiss ↦ ?_
      rw [hitAt_eq_none_iff.mpr hmiss] at hhit
      exact absurd hhit (Option.some_ne_none hit)

/-- **The scan of a node computes what `scanNode` does, and reads inside the node exactly if the
kind, the count, the names of the records that it comes to and the fields of the one that it takes
lie there.** -/
theorem scan_reads_inside_iff (q : ScanQuery) (secbuf nodeSize : UInt32) (m : Mem)
    (recordType : UInt16) :
    (scanNodeProg q secbuf nodeSize recordType).val m = scanNode q secbuf nodeSize m recordType ∧
      ((scanNodeProg q secbuf nodeSize recordType).LoadsIn m secbuf nodeSize.toNat ↔
        ScanInside q (bytesAt m secbuf) nodeSize.toNat) := by
  refine ⟨val_scanNodeProg recordType, ?_⟩
  have hview : Staged m secbuf nodeSize.toNat (bytesAt m secbuf) := fun k _ ↦ rfl
  have hkindRead : (loadByte (secbuf + 8)).LoadsIn m secbuf nodeSize.toNat ↔
      9 ≤ nodeSize.toNat := Prog.loadsIn_loadField (o := 8) m secbuf _ one_pos (by decide)
  have hcountRead : (loadBe16 (secbuf + 10)).LoadsIn m secbuf nodeSize.toNat ↔
      12 ≤ nodeSize.toNat := Prog.loadsIn_loadField (o := 10) m secbuf _ two_pos (by decide)
  have hkindVal : m (secbuf + 8) = bytesAt m secbuf 8 := rfl
  rw [scanInside_iff, scanNodeProg, Prog.loadsIn_bind, hkindRead, loadByte, Prog.mem_loadField,
    ← loadByte, val_loadByte, hkindVal]
  refine and_congr_right fun _ ↦ ?_
  by_cases hkind : bytesAt m secbuf 8 = 255
  swap
  · have hnone : scannedSlots (bytesAt m secbuf) nodeSize.toNat = [] := if_neg fun h ↦ hkind h.1
    rw [if_pos hkind, hnone]
    exact iff_of_true (Prog.loadsIn_pure _ _ _ _)
      ⟨fun h ↦ absurd h hkind, fun pre i post h ↦ by simp at h⟩
  rw [if_neg (not_not.mpr hkind), forall_prop_of_true hkind, Prog.loadsIn_bind, hcountRead,
    mem_loadBe16, val_loadBe16]
  refine and_congr_right fun hcount ↦ ?_
  rw [show rdbe16 m (secbuf + 10) = be16 (bytesAt m secbuf) 10 from hview.rdbe16 (o := 10) hcount]
  by_cases htable : 2 * (numRecords (bytesAt m secbuf) + 1) ≤ nodeSize.toNat
  swap
  · have hnone : scannedSlots (bytesAt m secbuf) nodeSize.toNat = [] := if_neg fun h ↦ htable h.2
    rw [if_pos (Or.inr (nodeSize_lt_table_iff.mpr htable)), hnone]
    exact iff_of_true (Prog.loadsIn_pure _ _ _ _) fun pre i post h ↦ by simp at h
  have hall : scannedSlots (bytesAt m secbuf) nodeSize.toNat
      = (List.range (be16 (bytesAt m secbuf) 10).toNat).map
          fun r ↦ numRecords (bytesAt m secbuf) - r := if_pos ⟨hkind, htable⟩
  rw [hall]
  by_cases hzero : be16 (bytesAt m secbuf) 10 = 0
  · rw [if_pos (Or.inl hzero), hzero]
    exact iff_of_true (Prog.loadsIn_pure _ _ _ _) fun pre i post h ↦ by simp at h
  rw [if_neg (not_or.mpr ⟨hzero, nodeSize_lt_table_iff.not_left.mpr htable⟩)]
  refine loadsIn_scanRecordsProg (fun r hr ↦ hview.slot htable (List.mem_range.mp hr).le)
    (fun r hr ↦ ?_) recordType
  have hr : r < numRecords (bytesAt m secbuf) := List.mem_range.mp hr
  have hlt := nodeSize.toNat_lt
  rw [tableStart_eq htable, add_ofNat_add]
  exact (Prog.loadsIn_loadField m secbuf _ two_pos (by omega)).mpr (by omega)

end Footprint

/-- A leaf of 512 bytes with one entry, at offset 500: a key of 6 bytes, so that the record type
still lies inside, and 100 characters for the name. -/
def longNameLeaf : Mem := fun a ↦
  if a = 8 then 255
  else if a = 11 then 1
  else if a = 501 then 6
  else if a = 507 then 100
  else if a = 508 then 1
  else if a = 509 then 244
  else 0

/-- The name is read 196 bytes past the end of the node. -/
theorem scan_reads_past_node :
    (707 : UInt32) ∈
        (scanNodeProg (fileQuery 2 (cString "mach_kernel")) 0 512 0).loads longNameLeaf ∧
      ¬InBlock 0 (512 : UInt32).toNat 707 := by
  decide

end CaribeOS
