import CaribeOS.Hfs.Catalog

/-!
# Leaves with records that do not overlap

`LeafRecords` is a leaf as HFS+ has it, seen by someone who changes it: the records are one behind the
other in some order, between the node descriptor and the free space, and the free space is zero. Such
a leaf is laid out as the lookup of the booter wants it (`LeafRecords.leafLayout`).

Two changes keep it so: writing to the fork fields of a file record (`LeafRecords.sameKeys`), and a
new record at the beginning of the free space (`LeafRecords.insert`).
-/

namespace CaribeOS

section Record

variable (b : ℕ → UInt8) (o : ℕ)

/-- The size of the data of a record: a folder, a file, a thread, or only a type. -/
def recordSize : ℕ :=
  if recordType b o = 1 then 88
  else if recordType b o = 2 then 248
  else if recordType b o = 3 ∨ recordType b o = 4 then
    10 + 2 * (be16 b (recordData b o + 8)).toNat
  else 2

/-- Where the record ends. -/
def recordEnd : ℕ := recordData b o + recordSize b o

theorem le_recordSize : 2 ≤ recordSize b o := by
  rw [recordSize]
  split_ifs <;> omega

variable {b o}

theorem recordEnd_file (h : recordType b o = 2) : recordEnd b o = recordData b o + 248 := by
  rw [recordEnd, recordSize, h, if_neg (by decide), if_pos rfl]

theorem recordEnd_folder (h : recordType b o = 1) : recordEnd b o = recordData b o + 88 := by
  rw [recordEnd, recordSize, h, if_pos rfl]

end Record

/-- The offset of the free space. -/
def freeOffset (b : ℕ → UInt8) (n : ℕ) : ℕ := recordOffset b n (numRecords b)

/-- A leaf of `n` bytes whose records do not overlap, with zeros in the free space. -/
structure LeafRecords (b : ℕ → UInt8) (n : ℕ) : Prop where
  table : 2 * (numRecords b + 1) ≤ n
  free_ge : 14 ≤ freeOffset b n
  free_even : 2 ∣ freeOffset b n
  free_le : freeOffset b n ≤ n - 2 * (numRecords b + 1)
  free_zero : ∀ k, freeOffset b n ≤ k → k < n - 2 * (numRecords b + 1) → b k = 0
  offset : ∀ i < numRecords b, 14 ≤ recordOffset b n i
  name : ∀ i < numRecords b, 6 + 2 * (recordName b (recordOffset b n i)).length
    ≤ recordKeyLength b (recordOffset b n i)
  end_le : ∀ i < numRecords b, recordEnd b (recordOffset b n i) ≤ freeOffset b n
  disjoint : ∀ i < numRecords b, ∀ j < numRecords b, i ≠ j →
    recordEnd b (recordOffset b n i) ≤ recordOffset b n j ∨
      recordEnd b (recordOffset b n j) ≤ recordOffset b n i

/-- The record at `o` has the same key and type, and the same end, in two nodes. -/
structure SameRecord (b b' : ℕ → UInt8) (o : ℕ) : Prop where
  keyLength : recordKeyLength b' o = recordKeyLength b o
  parent : recordParent b' o = recordParent b o
  name : recordName b' o = recordName b o
  type : recordType b' o = recordType b o
  end_eq : recordEnd b' o = recordEnd b o

variable {b b' : ℕ → UInt8} {o i : ℕ}

theorem SameRecord.data (h : SameRecord b b' o) : recordData b' o = recordData b o := by
  rw [recordData, recordData, h.keyLength]

/-- The bytes up to the tenth of the data decide. -/
theorem sameRecord_of_agree (hname : 6 + 2 * (recordName b o).length ≤ recordKeyLength b o)
    (h : ∀ k, o ≤ k → k < recordEnd b o → k < recordData b o + 10 → b' k = b k) :
    SameRecord b b' o := by
  have hdata : recordData b o = o + 2 + recordKeyLength b o := rfl
  have hend : recordEnd b o = recordData b o + recordSize b o := rfl
  have hsize := le_recordSize b o
  have hkey : be16 b' o = be16 b o := be16_congr fun k hle hlt ↦ h k hle (by omega) (by omega)
  have hlen : be16 b' (o + 6) = be16 b (o + 6) :=
    be16_congr fun k hle hlt ↦ h k (by omega) (by omega) (by omega)
  have hdata' : recordData b' o = recordData b o := by
    rw [recordData, recordKeyLength, hkey, recordData, recordKeyLength]
  have htype : recordType b' o = recordType b o := by
    rw [recordType, recordType, hdata']
    exact be16_congr fun k hle hlt ↦ h k (by omega) (by omega) (by omega)
  refine ⟨by rw [recordKeyLength, hkey, recordKeyLength],
    be32_congr fun k hle hlt ↦ h k (by omega) (by omega) (by omega), ?_, htype, ?_⟩
  · rw [recordName, List.length_map, List.length_range] at hname
    rw [recordName, recordName, hlen]
    refine List.map_congr_left fun j hj ↦ ?_
    rw [List.mem_range] at hj
    exact be16_congr fun k hle hlt ↦ h k (by omega) (by omega) (by omega)
  · rw [recordEnd, recordEnd, hdata', recordSize, htype, hdata', recordSize]
    split_ifs with hone htwo hthread
    · rfl
    · rfl
    · -- a thread is long enough for the length of its name
      rw [recordSize, if_neg hone, if_neg htwo, if_pos hthread] at hend
      rw [be16_congr fun k hle hlt ↦ h k (by omega) (by omega) (by omega)]
    · rfl

namespace LeafRecords

variable {b b' : ℕ → UInt8} {n : ℕ} (h : LeafRecords b n)
include h

theorem recordInside (hi : i < numRecords b) : RecordInside b n (recordOffset b n i) := by
  have hend := h.end_le i hi
  have hfree := h.free_le
  have hsize := le_recordSize b (recordOffset b n i)
  rw [recordEnd] at hend
  refine ⟨h.name i hi, by omega, fun htype ↦ ?_⟩
  have := recordEnd_file htype
  rw [recordEnd] at this
  omega

theorem leafLayout : LeafLayout b n where
  table := h.table
  offset i hi := by
    rcases hi.eq_or_lt with rfl | hlt
    · exact h.free_ge
    · exact h.offset i hlt
  record _ hi := h.recordInside hi
  even := h.free_even
  free_le := h.free_le
  free := h.free_zero

theorem size_ge : 16 ≤ n := by
  have := h.free_ge
  have := h.free_le
  omega

end LeafRecords

/-- The same records under the same keys in two nodes: the kind of the node, the offset table, and
the records up to their types. -/
structure SameKeys (b b' : ℕ → UInt8) (n : ℕ) : Prop where
  kind : b' 8 = b 8
  num : numRecords b' = numRecords b
  offset : ∀ i ≤ numRecords b, recordOffset b' n i = recordOffset b n i
  record : ∀ i < numRecords b, SameRecord b b' (recordOffset b n i)

section Change

variable {b b' : ℕ → UInt8} {n : ℕ}

theorem SameKeys.leafRecords (hkeys : SameKeys b b' n) (h : LeafRecords b n)
    (hfree : ∀ k, freeOffset b n ≤ k → k < n - 2 * (numRecords b + 1) → b' k = b k) :
    LeafRecords b' n := by
  have hoff : ∀ i < numRecords b, recordOffset b' n i = recordOffset b n i :=
    fun i hi ↦ hkeys.offset i hi.le
  have hfreeOff : freeOffset b' n = freeOffset b n := by
    rw [freeOffset, hkeys.num, hkeys.offset _ le_rfl, freeOffset]
  refine ⟨?_, ?_, ?_, ?_, ?_, ?_, ?_, ?_, ?_⟩
  · rw [hkeys.num]
    exact h.table
  · rw [hfreeOff]
    exact h.free_ge
  · rw [hfreeOff]
    exact h.free_even
  · rw [hfreeOff, hkeys.num]
    exact h.free_le
  · rw [hfreeOff, hkeys.num]
    exact fun k hle hlt ↦ (hfree k hle hlt).trans (h.free_zero k hle hlt)
  · rw [hkeys.num]
    intro i hi
    rw [hoff i hi]
    exact h.offset i hi
  · rw [hkeys.num]
    intro i hi
    rw [hoff i hi, (hkeys.record i hi).name, (hkeys.record i hi).keyLength]
    exact h.name i hi
  · rw [hkeys.num, hfreeOff]
    intro i hi
    rw [hoff i hi, (hkeys.record i hi).end_eq]
    exact h.end_le i hi
  · rw [hkeys.num]
    intro i hi j hj hne
    rw [hoff i hi, hoff j hj, (hkeys.record i hi).end_eq, (hkeys.record j hj).end_eq]
    exact h.disjoint i hi j hj hne

theorem LeafRecords.sameKeys_of_agree (h : LeafRecords b n) (hagree : ∀ k < n, b' k = b k) :
    SameKeys b b' n := by
  have hsize := h.size_ge
  have hfree := h.free_le
  refine ⟨hagree 8 (by omega), ?_, fun i hi ↦ ?_, fun i hi ↦ ?_⟩
  · rw [numRecords, numRecords, be16_congr fun k _ hlt ↦ hagree k (by omega)]
  · rw [recordOffset, recordOffset, be16_congr fun k _ hlt ↦ hagree k (by omega)]
  · have hend := h.end_le i hi
    exact sameRecord_of_agree (h.name i hi) fun k _ hlt _ ↦ hagree k (by omega)

/-- **Writing to the fork fields of a file record** keeps the keys, and all other records as they
are. -/
theorem LeafRecords.sameKeys (h : LeafRecords b n) (hi : i < numRecords b)
    (hfile : recordType b (recordOffset b n i) = 2)
    (hagree : ∀ k, k < recordData b (recordOffset b n i) + 88 ∨
      recordData b (recordOffset b n i) + 168 ≤ k → b' k = b k) : SameKeys b b' n := by
  have hend := h.end_le i hi
  have hfree := h.free_le
  have hdata : recordData b (recordOffset b n i)
      = recordOffset b n i + 2 + recordKeyLength b (recordOffset b n i) := rfl
  rw [recordEnd_file hfile] at hend
  have hnum : numRecords b' = numRecords b := by
    rw [numRecords, numRecords, be16_congr fun k hle hlt ↦ hagree k (by omega)]
  refine ⟨hagree 8 (by omega), hnum, fun j hj ↦ ?_, fun j hj ↦ ?_⟩
  · have htable := h.table
    rw [recordOffset, recordOffset, be16_congr fun k hle hlt ↦ hagree k (by omega)]
  · refine sameRecord_of_agree (h.name j hj) fun k hle hlt hten ↦ hagree k ?_
    by_cases hij : j = i
    · subst hij
      omega
    · have hdis := h.disjoint i hi j hj fun heq ↦ hij heq.symm
      rw [recordEnd_file hfile] at hdis
      omega

/-- **A new record** at the beginning of the free space. -/
theorem LeafRecords.insert (h : LeafRecords b n) {newFree : ℕ}
    (hnum : numRecords b' = numRecords b + 1) (htable : 2 * (numRecords b + 2) ≤ n)
    (hoff : ∀ i < numRecords b, recordOffset b' n i = recordOffset b n i)
    (hnew : recordOffset b' n (numRecords b) = freeOffset b n)
    (hfree : recordOffset b' n (numRecords b + 1) = newFree) (heven : 2 ∣ newFree)
    (hroom : newFree ≤ n - 2 * (numRecords b + 2))
    (hold : ∀ k, 14 ≤ k → k < freeOffset b n → b' k = b k)
    (hzero : ∀ k, newFree ≤ k → k < n - 2 * (numRecords b + 2) → b' k = b k)
    (hname : 6 + 2 * (recordName b' (freeOffset b n)).length ≤ recordKeyLength b' (freeOffset b n))
    (hend : recordEnd b' (freeOffset b n) = newFree) :
    LeafRecords b' n ∧ ∀ i < numRecords b, SameRecord b b' (recordOffset b n i) := by
  have hge := h.free_ge
  have hgrow : freeOffset b n ≤ newFree := by
    rw [← hend, recordEnd, recordData]
    omega
  have hsame : ∀ i < numRecords b, SameRecord b b' (recordOffset b n i) := by
    intro i hi
    have hstart := h.offset i hi
    have hle := h.end_le i hi
    exact sameRecord_of_agree (h.name i hi) fun k hle' hlt _ ↦ hold k (by omega) (by omega)
  have hfreeOff : freeOffset b' n = newFree := by rw [freeOffset, hnum, hfree]
  have hindex : ∀ i < numRecords b', i < numRecords b ∨ i = numRecords b := by
    intro i hi
    omega
  refine ⟨⟨?_, ?_, ?_, ?_, ?_, ?_, ?_, ?_, ?_⟩, hsame⟩
  · rw [hnum]
    exact htable
  · rw [hfreeOff]
    omega
  · rw [hfreeOff]
    exact heven
  · rw [hfreeOff, hnum]
    exact hroom
  · rw [hfreeOff, hnum]
    intro k hle hlt
    rw [hzero k hle hlt]
    exact h.free_zero k (by omega) (by omega)
  · intro i hi
    rcases hindex i hi with hlt | rfl
    · rw [hoff i hlt]
      exact h.offset i hlt
    · rw [hnew]
      exact hge
  · intro i hi
    rcases hindex i hi with hlt | rfl
    · rw [hoff i hlt, (hsame i hlt).name, (hsame i hlt).keyLength]
      exact h.name i hlt
    · rw [hnew]
      exact hname
  · intro i hi
    rw [hfreeOff]
    rcases hindex i hi with hlt | rfl
    · rw [hoff i hlt, (hsame i hlt).end_eq]
      exact (h.end_le i hlt).trans hgrow
    · rw [hnew, hend]
  · intro i hi j hj hne
    rcases hindex i hi with hlt | rfl <;> rcases hindex j hj with hlt' | rfl
    · rw [hoff i hlt, hoff j hlt', (hsame i hlt).end_eq, (hsame j hlt').end_eq]
      exact h.disjoint i hlt j hlt' hne
    · rw [hoff i hlt, hnew, (hsame i hlt).end_eq]
      exact Or.inl (h.end_le i hlt)
    · rw [hoff j hlt', hnew, (hsame j hlt').end_eq]
      exact Or.inr (h.end_le j hlt')
    · exact absurd rfl hne

end Change

end CaribeOS
