import CaribeOS.Foundation.Parts
import CaribeOS.Hfs.ReadFile

/-!
# Which record a lookup selects

`catalog_scan_child` compares names after the conversion to a C string of at most 127 characters,
and `hfsplus_read_file` cuts the components of its path in the same way. Different names can become
one, and the entry of the free space is looked at like that of a record.

`seenEntries` has the entries that a scan looks at, each with what stands in the staging buffer then.
`catalogLookup_sound_iff` says when the one that it takes is what was asked for: when it is that of a
record, has been read as it is on the disk, and the conversion has kept its name (`NameKept`). With
that at every component, a path leads to the file that its names spell out (`Leads`).
-/

namespace CaribeOS

open ByteMemory

/-! ## Names that the conversion keeps -/

/-- The conversion has lost nothing of the name of a record, compared to the component of a path:
the characters that are compared are ASCII, and what stands behind them agrees. -/
structure NameKept (name : List UInt16) (requested : List UInt8) : Prop where
  ascii : ∀ u ∈ name.take 127, u ≠ 0 ∧ u < 128
  rest : name.drop 127 = (requested.drop 127).map UInt8.toUInt16

variable {u : UInt16} {name : List UInt16} {requested path : List UInt8} {pos : ℕ × ℕ} {m : Mem}
  {secbuf : UInt32}

theorem asciiChar_ne_zero (hu : u ≠ 0) : asciiChar u ≠ 0 := by
  rw [asciiChar]
  split_ifs with hlt
  · intro hzero
    rw [← UInt8.toNat_inj, UInt16.toNat_toUInt8, UInt8.toNat_zero] at hzero
    rw [UInt16.lt_iff_toNat_lt] at hlt
    rw [ne_eq, ← UInt16.toNat_inj, UInt16.toNat_zero] at hu
    have hbound : (128 : UInt16).toNat = 128 := rfl
    omega
  · decide

theorem squeeze_eq_of_ne_zero (h : ∀ u ∈ name.take 127, u ≠ 0) :
    squeeze name = (name.take 127).map asciiChar := by
  rw [squeeze, ← List.map_take, List.takeWhile_eq_self_iff]
  intro c hc
  obtain ⟨u, hu, rfl⟩ := List.mem_map.mp hc
  exact decide_eq_true (asciiChar_ne_zero (h u hu))

theorem squeeze_length_le (name : List UInt16) : (squeeze name).length ≤ 127 :=
  ((List.takeWhile_prefix _).length_le).trans (List.length_take_le _ _)

theorem asciiChar_toUInt16_eq_iff (c : UInt8) : asciiChar c.toUInt16 = c ↔ c.toUInt16 < 128 := by
  rw [asciiChar]
  split_ifs with hlt
  · rw [UInt8.toUInt8_toUInt16]
    exact ⟨fun _ ↦ hlt, fun _ ↦ rfl⟩
  · refine ⟨fun heq ↦ ?_, fun h ↦ absurd h hlt⟩
    rw [← heq]
    decide

theorem toUInt16_toUInt8_of_lt (h : u < 128) : u.toUInt8.toUInt16 = u := by
  rw [← UInt16.toNat_inj, UInt8.toNat_toUInt16, UInt16.toNat_toUInt8]
  exact Nat.mod_eq_of_lt (h.trans (by decide))

/-- **When equal after the conversion means equal**: a name that is converted to what a component is
cut to is that component exactly when the conversion has kept it. -/
theorem nameKept_iff (hrequested : ∀ c ∈ requested, c ≠ 0)
    (hsqueeze : squeeze name = requested.take 127) :
    NameKept name requested ↔ name = requested.map UInt8.toUInt16 := by
  constructor
  · intro h
    -- the compared part, character by character
    have hfirst : name.take 127 = (requested.take 127).map UInt8.toUInt16 := by
      rw [← hsqueeze, squeeze_eq_of_ne_zero fun u hu ↦ (h.ascii u hu).1, List.map_map]
      have hkeep : ∀ u ∈ name.take 127, (UInt8.toUInt16 ∘ asciiChar) u = id u := by
        intro u hu
        rw [Function.comp_apply, asciiChar, if_pos (h.ascii u hu).2,
          toUInt16_toUInt8_of_lt (h.ascii u hu).2, id_eq]
      rw [List.map_congr_left hkeep, List.map_id]
    rw [← List.take_append_drop 127 name, hfirst, h.rest, ← List.map_append, List.take_append_drop]
  · rintro rfl
    have hzero : ∀ u ∈ (requested.map UInt8.toUInt16).take 127, u ≠ 0 := by
      intro u hu
      obtain ⟨c, hc, rfl⟩ := List.mem_map.mp (List.mem_of_mem_take hu)
      have := hrequested c hc
      rwa [ne_eq, ← UInt16.toNat_inj, UInt8.toNat_toUInt16, UInt16.toNat_zero, ← UInt8.toNat_zero,
        UInt8.toNat_inj]
    refine ⟨fun u hu ↦ ⟨hzero u hu, ?_⟩, by rw [List.map_drop]⟩
    rw [squeeze_eq_of_ne_zero hzero, ← List.map_take, List.map_map] at hsqueeze
    rw [← List.map_take] at hu
    obtain ⟨c, hc, rfl⟩ := List.mem_map.mp hu
    have hsame : ∀ c ∈ requested.take 127, (asciiChar ∘ UInt8.toUInt16) c = id c :=
      List.map_inj_left.mp (hsqueeze.trans (List.map_id _).symm)
    exact (asciiChar_toUInt16_eq_iff c).mp (hsame c hc)

/-! ## The entry at which a scan ends -/

section Selected

variable (disk : Disk) (hfs : HfsVolume) (q : ScanQuery)

/-- The scan takes the entry for what it is asked for. -/
def TakesAt (pos : ℕ × ℕ) : Prop :=
  Takes q (nodeBytes disk hfs pos.1) hfs.nodeSize.toNat (offsetAt disk hfs pos)
  deriving Decidable

/-- The entry at which the scan ends. -/
def selected : Option (ℕ × ℕ) := (scanned disk hfs).find? fun pos ↦ TakesAt disk hfs q pos

/-- The entries looked at are inside their nodes, as far as the scan reads them. -/
def SlotsInside : Prop :=
  ∀ pos ∈ scanned disk hfs, ∀ q,
    SlotInside (nodeBytes disk hfs pos.1) hfs.nodeSize.toNat (offsetAt disk hfs pos) q

variable {disk hfs q}

theorem findSome_eq_find_bind {α β : Type*} {f : α → Option β} {p : α → Bool}
    (h : ∀ x, f x = none ↔ p x = false) (l : List α) : l.findSome? f = (l.find? p).bind f := by
  induction l with
  | nil => rfl
  | cons x l ih =>
    rw [List.findSome?_cons, List.find?_cons]
    cases hp : p x with
    | false => rw [(h x).mpr hp]; exact ih
    | true =>
      cases hf : f x with
      | none => exact absurd ((h x).mp hf) (by rw [hp]; decide)
      | some y => exact hf.symm

/-- **The scan ends at the selected entry.** -/
theorem catalogScanChild_selected (hg : CatalogGeometry hfs) (hslots : SlotsInside disk hfs)
    (q : ScanQuery) (secbuf : UInt32) (recType : UInt16) (m : Mem) :
    (catalogScanChild disk hfs secbuf q recType m).1.2
      = (selected disk hfs q).bind (hitOf disk hfs q) := by
  rw [hg.catalogScanChild_hit fun pos hpos ↦ hslots pos hpos q, selected]
  refine findSome_eq_find_bind (fun pos ↦ ?_) _
  rw [hitOf, hitAt_eq_none_iff, decide_eq_false_iff_not, TakesAt]

theorem isRecord_of_mem_scanned (hpos : pos ∈ scanned disk hfs)
    (hindex : pos.2 < numRecords (nodeBytes disk hfs pos.1)) : IsRecord disk hfs pos := by
  obtain ⟨hfirst, hlast, hi⟩ := mem_scanned hpos
  rw [scannedSlots] at hi
  split_ifs at hi with hkind
  · exact ⟨hfirst, hlast, hkind.1, hindex⟩
  · exact absurd hi List.not_mem_nil

end Selected

/-! ## What stands in the staging buffer -/

/-- An entry that a scan looks at: its node, the memory after that has been read, and its index. -/
structure SeenEntry where
  node : ℕ
  mem : Mem
  index : ℕ

section SeenEntry

variable (disk : Disk) (hfs : HfsVolume) (secbuf : UInt32) (q : ScanQuery)

/-- The entries that a scan looks at, in its order. -/
def seenEntries (m : Mem) : List SeenEntry :=
  if hfsNodeBufSize < hfs.nodeSize then []
  else
    (stagedNodes disk hfs secbuf (catalogRange hfs).2
      (((catalogRange hfs).2 - (catalogRange hfs).1).toNat + 1) (catalogRange hfs).1 m).flatMap
      fun s ↦ (scannedSlots (bytesAt s.2 secbuf) hfs.nodeSize.toNat).map (⟨s.1, s.2, ·⟩)

namespace SeenEntry

variable (e : SeenEntry)

/-- Where the record is on the disk. -/
def place : ℕ × ℕ := (e.node, e.index)

/-- What the entry contributes to the scan, by what stands in the staging buffer. -/
def hit : Option ScanHit :=
  hitAt q (bytesAt e.mem secbuf) hfs.nodeSize.toNat
    (recordOffset (bytesAt e.mem secbuf) hfs.nodeSize.toNat e.index)

end SeenEntry

/-- The entry at which the scan ends. -/
def taken (m : Mem) : Option SeenEntry :=
  (seenEntries disk hfs secbuf m).find? fun e ↦ (e.hit hfs secbuf q).isSome

/-- What is taken for the component `requested` is a record of a leaf, with that very name and in the
folder asked for, and what is returned is what that record holds. -/
def LookupSound (m : Mem) (requested : List UInt8) : Prop :=
  ∀ e, taken disk hfs secbuf q m = some e → IsRecord disk hfs e.place ∧
    HasKey disk hfs q.parent requested e.place ∧ hitOf disk hfs q e.place = e.hit hfs secbuf q

/-- The entry is that of a record and not that of the free space, it has been read as it is on the
disk, and the conversion has kept its name. -/
structure EntryRight (requested : List UInt8) (e : SeenEntry) : Prop where
  leaf : nodeBytes disk hfs e.node 8 = 255
  record : e.index < numRecords (nodeBytes disk hfs e.node)
  read : hitOf disk hfs q e.place = e.hit hfs secbuf q
  name : NameKept (recordName (nodeBytes disk hfs e.node) (offsetAt disk hfs e.place)) requested

/-- The first entry that the scan would take is right. -/
def NoConfusion (m : Mem) (requested : List UInt8) : Prop :=
  ∀ before e after, seenEntries disk hfs secbuf m = before ++ e :: after →
    (∀ earlier ∈ before, earlier.hit hfs secbuf q = none) → e.hit hfs secbuf q ≠ none →
      EntryRight disk hfs secbuf q requested e

variable {disk hfs secbuf q}

/-- **The scan ends at the entry that it takes.** -/
theorem catalogScanChild_taken (recType : UInt16) (m : Mem) :
    (catalogScanChild disk hfs secbuf q recType m).1.2
      = (taken disk hfs secbuf q m).bind (SeenEntry.hit hfs secbuf q) := by
  have hfind : (catalogScanChild disk hfs secbuf q recType m).1.2
      = (seenEntries disk hfs secbuf m).findSome? (SeenEntry.hit hfs secbuf q) := by
    rw [catalogScanChild, seenEntries]
    split_ifs
    · rfl
    rw [scanNodes_staged, findSome_flatMap]
    refine findSome_congr fun s _ ↦ ?_
    rw [scanNode_bytesAt, List.findSome?_map]
    rfl
  rw [hfind, taken]
  refine findSome_eq_find_bind (fun e ↦ ?_) _
  rw [Option.isSome_eq_false_iff, Option.isNone_iff_eq_none]

theorem taken_eq_some_iff {e : SeenEntry} : taken disk hfs secbuf q m = some e ↔
    e.hit hfs secbuf q ≠ none ∧ ∃ before after, seenEntries disk hfs secbuf m = before ++ e :: after ∧
      ∀ earlier ∈ before, earlier.hit hfs secbuf q = none := by
  rw [taken, List.find?_eq_some_iff_append]
  simp only [Option.isSome_iff_ne_none, Bool.not_eq_true', Option.isSome_eq_false_iff,
    Option.isNone_iff_eq_none]

theorem mem_stagedNodes {last : UInt32} {fuel : ℕ} {node : UInt32} {s : ℕ × Mem}
    (h : s ∈ stagedNodes disk hfs secbuf last fuel node m) :
    node.toNat ≤ s.1 ∧ s.1 ≤ last.toNat := by
  induction fuel generalizing node m with
  | zero => exact absurd h List.not_mem_nil
  | succ fuel ih =>
    rw [stagedNodes] at h
    by_cases hend : last < node
    · rw [if_pos hend] at h
      exact absurd h List.not_mem_nil
    rw [if_neg hend] at h
    rw [UInt32.not_lt, UInt32.le_iff_toNat_le] at hend
    generalize forkRead disk hfs secbuf hfs.catalog (node * hfs.nodeSize) secbuf hfs.nodeSize m
      = result at h
    obtain ⟨_ | _, m'⟩ := result
    · exact absurd h List.not_mem_nil
    rcases List.mem_cons.mp h with rfl | h
    · exact ⟨le_rfl, hend⟩
    by_cases hlast : node = last
    · rw [if_pos hlast] at h
      exact absurd h List.not_mem_nil
    rw [if_neg hlast] at h
    have hlt : node.toNat < last.toNat :=
      lt_of_le_of_ne hend fun heq ↦ hlast (UInt32.toNat_inj.mp heq)
    have hnext : (node + 1).toNat = node.toNat + 1 :=
      Nat.mod_eq_of_lt (lt_of_le_of_lt hlt last.toNat_lt)
    obtain ⟨hlow, hhigh⟩ := ih h
    exact ⟨by omega, hhigh⟩

theorem mem_seenEntries {e : SeenEntry} (he : e ∈ seenEntries disk hfs secbuf m) :
    (e.node, e.mem) ∈ stagedNodes disk hfs secbuf (catalogRange hfs).2
        (((catalogRange hfs).2 - (catalogRange hfs).1).toNat + 1) (catalogRange hfs).1 m ∧
      e.index ∈ scannedSlots (bytesAt e.mem secbuf) hfs.nodeSize.toNat := by
  rw [seenEntries] at he
  split_ifs at he
  · exact absurd he List.not_mem_nil
  · obtain ⟨s, hs, hslot⟩ := List.mem_flatMap.mp he
    obtain ⟨i, hi, rfl⟩ := List.mem_map.mp hslot
    exact ⟨hs, hi⟩

theorem takesAt_of_hitOf (h : hitOf disk hfs q pos ≠ none) : TakesAt disk hfs q pos := by
  by_contra htakes
  exact h (hitAt_eq_none_iff.mpr htakes)

/-- **Soundness of one scan**, called with a component or with what the path walk cuts it to. -/
theorem lookupSound_iff (hrequested : ∀ c ∈ requested, c ≠ 0)
    (htarget : q.target = requested ∨ q.target = requested.take 127) (m : Mem) :
    LookupSound disk hfs secbuf q m requested ↔ NoConfusion disk hfs secbuf q m requested := by
  have hname : ∀ pos, TakesAt disk hfs q pos →
      squeeze (recordName (nodeBytes disk hfs pos.1) (offsetAt disk hfs pos))
        = requested.take 127 := by
    rintro pos ⟨-, -, -, hsqueeze, -⟩
    have hself : q.target.takeWhile (· ≠ 0) = q.target := by
      rw [List.takeWhile_eq_self_iff]
      intro c hc
      refine decide_eq_true (hrequested c ?_)
      rcases htarget with h | h
      · exact h ▸ hc
      · exact List.mem_of_mem_take (h ▸ hc)
    have hlen := squeeze_length_le (recordName (nodeBytes disk hfs pos.1) (offsetAt disk hfs pos))
    rw [hself] at hsqueeze
    rcases htarget with h | h
    · rw [hsqueeze, h] at hlen
      rw [hsqueeze, h, List.take_of_length_le hlen]
    · rw [hsqueeze, h]
  constructor
  · intro hsound before e after hseen hbefore hhit
    obtain ⟨hrecord, hkey, hread⟩ :=
      hsound e (taken_eq_some_iff.mpr ⟨hhit, before, after, hseen, hbefore⟩)
    have htakes := takesAt_of_hitOf (ne_of_eq_of_ne hread hhit)
    exact ⟨hrecord.leaf, hrecord.index, hread,
      (nameKept_iff hrequested (hname e.place htakes)).mpr hkey.2⟩
  · intro hno e he
    obtain ⟨hhit, before, after, hseen, hbefore⟩ := taken_eq_some_iff.mp he
    obtain ⟨hleaf, hindex, hread, hkept⟩ := hno before e after hseen hbefore hhit
    have htakes := takesAt_of_hitOf (ne_of_eq_of_ne hread hhit)
    have hmem : e ∈ seenEntries disk hfs secbuf m := by
      rw [hseen]
      exact List.mem_append_right _ List.mem_cons_self
    obtain ⟨hfirst, hlast⟩ := mem_stagedNodes (mem_seenEntries hmem).1
    exact ⟨⟨hfirst, hlast, hleaf, hindex⟩, ⟨htakes.2.2.1,
      (nameKept_iff hrequested (hname e.place htakes)).mp hkept⟩, hread⟩

/-- In a catalog whose nodes are read as they are, the entries that a scan looks at are those of the
disk, and one that is inside its node contributes what it does there. -/
theorem CatalogGeometry.mem_seenEntries (hg : CatalogGeometry hfs) {e : SeenEntry}
    (he : e ∈ seenEntries disk hfs secbuf m) : e.place ∈ scanned disk hfs ∧
      (SlotInside (nodeBytes disk hfs e.node) hfs.nodeSize.toNat (offsetAt disk hfs e.place) q →
        hitOf disk hfs q e.place = e.hit hfs secbuf q) := by
  obtain ⟨hnode, hindex⟩ := CaribeOS.mem_seenEntries he
  have hle := UInt32.le_iff_toNat_le.mp (catalogRange_le hfs)
  have hlarge := hg.large
  rw [UInt32.toNat_sub_of_le _ _ (catalogRange_le hfs)] at hnode
  obtain ⟨hnodes, hstaged⟩ := hg.stagedNodes_spec disk secbuf
    ((catalogRange hfs).2.toNat - (catalogRange hfs).1.toNat + 1) (catalogRange hfs).1 m (by omega)
  have hview := hstaged _ hnode
  have hbytes : ∀ k < hfs.nodeSize.toNat, bytesAt e.mem secbuf k = nodeBytes disk hfs e.node k := hview
  have hnum : numRecords (bytesAt e.mem secbuf) = numRecords (nodeBytes disk hfs e.node) :=
    congrArg UInt16.toNat (be16_congr fun k _ hk ↦ hbytes k (by omega))
  have hslots : scannedSlots (bytesAt e.mem secbuf) hfs.nodeSize.toNat
      = scannedSlots (nodeBytes disk hfs e.node) hfs.nodeSize.toNat := by
    rw [scannedSlots, scannedSlots, hbytes 8 (by omega), hnum]
  rw [hslots] at hindex
  constructor
  · rw [scanned, scannedFrom, ← hnodes, List.mem_flatMap]
    exact ⟨e.node, List.mem_map_of_mem hnode, List.mem_map_of_mem hindex⟩
  · intro hslot
    have hoffset : recordOffset (bytesAt e.mem secbuf) hfs.nodeSize.toNat e.index
        = offsetAt disk hfs e.place := by
      exact congrArg UInt16.toNat (be16_congr fun k hlow hk ↦ hbytes k (by omega))
    have hlt := recordOffset_lt (nodeBytes disk hfs e.node) hfs.nodeSize.toNat e.index
    rw [SeenEntry.hit, ← scanRecord_hit_bytesAt (recordOffset_lt _ _ _), hoffset]
    exact (scanRecord_hit hview le_rfl hlt hslot).symm

end SeenEntry

/-! ## The path walk -/

section Walk

variable {disk : Disk} {hfs : HfsVolume}

variable (disk hfs) in
/-- The type of the record at an entry. -/
def typeAt (pos : ℕ × ℕ) : UInt16 := recordType (nodeBytes disk hfs pos.1) (offsetAt disk hfs pos)

variable (disk hfs) in
/-- The folder that a folder record stands for. -/
def folderIdAt (pos : ℕ × ℕ) : UInt32 :=
  be32 (nodeBytes disk hfs pos.1) (recordData (nodeBytes disk hfs pos.1) (offsetAt disk hfs pos) + 8)

variable (disk hfs) in
/-- The names `comps`, from the folder `parent` on, lead to the file record at `pos`. -/
inductive Leads : UInt32 → List (List UInt8) → ℕ × ℕ → Prop
  | file {parent : UInt32} {name : List UInt8} {pos : ℕ × ℕ} :
    IsRecord disk hfs pos → HasKey disk hfs parent name pos → typeAt disk hfs pos = 2 →
      Leads parent [name] pos
  | folder {parent : UInt32} {name : List UInt8} {comps : List (List UInt8)} {dir pos : ℕ × ℕ} :
    IsRecord disk hfs dir → HasKey disk hfs parent name dir → typeAt disk hfs dir = 1 →
      Leads (folderIdAt disk hfs dir) comps pos → Leads parent (name :: comps) pos

/-- The components of a path. -/
def pathComponents (path : List UInt8) : List (List UInt8) := path.parts 47

/-- `split_next_path_component` takes the first component off the path, cut to 127 characters. -/
theorem splitNextPathComponent_parts {comp rest : List UInt8}
    (h : splitNextPathComponent path 128 = some (comp, rest)) :
    ∃ name, pathComponents path = name :: pathComponents rest ∧ comp = name.take 127 := by
  rw [splitNextPathComponent] at h
  split_ifs at h with hnil
  obtain ⟨hcomp, hrest⟩ := Prod.mk.inj (Option.some_inj.mp h)
  refine ⟨_, ?_, hcomp.symm⟩
  rw [pathComponents, List.parts_eq_cons hnil, pathComponents, ← hrest]

theorem pathHasMore_iff (path : List UInt8) :
    pathHasMore path = true ↔ pathComponents path ≠ [] := by
  rw [pathHasMore, decide_eq_true_eq, pathComponents]
  constructor
  · intro h
    rw [List.parts_eq_cons h]
    exact List.cons_ne_nil _ _
  · exact fun h hnil ↦ h (List.parts_eq_nil hnil)

theorem hitOf_eq_some {q : ScanQuery} {hit : ScanHit} (h : hitOf disk hfs q pos = some hit) :
    TakesAt disk hfs q pos ∧ hit = if typeAt disk hfs pos = 1 then .folder (folderIdAt disk hfs pos)
      else .file (forkAt disk hfs pos) := by
  have htakes := takesAt_of_hitOf (ne_of_eq_of_ne h (Option.some_ne_none hit))
  refine ⟨htakes, ?_⟩
  rw [hitOf, hitAt, if_pos (by exact htakes)] at h
  rw [typeAt, folderIdAt, forkAt]
  split_ifs at h ⊢ with htype
  · exact (Option.some_inj.mp h).symm
  · exact (Option.some_inj.mp h).symm

theorem NoConfusion.of_hit {q : ScanQuery} {recType : UInt16} {hit : ScanHit}
    (hno : NoConfusion disk hfs secbuf q m requested) (hrequested : ∀ c ∈ requested, c ≠ 0)
    (htarget : q.target = requested ∨ q.target = requested.take 127)
    (h : (catalogScanChild disk hfs secbuf q recType m).1.2 = some hit) :
    ∃ pos, IsRecord disk hfs pos ∧ HasKey disk hfs q.parent requested pos ∧
      hitOf disk hfs q pos = some hit := by
  rw [catalogScanChild_taken, Option.bind_eq_some_iff] at h
  obtain ⟨e, he, hhit⟩ := h
  obtain ⟨hrecord, hkey, hread⟩ := (lookupSound_iff hrequested htarget m).mpr hno e he
  exact ⟨e.place, hrecord, hkey, hread.trans hhit⟩

theorem NoConfusion.of_folder {parent : UInt32}
    (hno : NoConfusion disk hfs secbuf (folderQuery parent (requested.take 127)) m requested)
    (hrequested : ∀ c ∈ requested, c ≠ 0) (recType : UInt16) (id : UInt32)
    (h : (catalogScanChild disk hfs secbuf (folderQuery parent (requested.take 127)) recType m).1.2
      = some (.folder id)) :
    ∃ dir, IsRecord disk hfs dir ∧ HasKey disk hfs parent requested dir ∧
      typeAt disk hfs dir = 1 ∧ folderIdAt disk hfs dir = id := by
  obtain ⟨dir, hrecord, hkey, hdir⟩ := hno.of_hit hrequested (.inr rfl) h
  obtain ⟨-, hhit⟩ := hitOf_eq_some hdir
  split_ifs at hhit with htype
  exact ⟨dir, hrecord, hkey, htype, (ScanHit.folder.inj hhit).symm⟩

theorem NoConfusion.of_file {parent : UInt32}
    (hno : NoConfusion disk hfs secbuf (fileQuery parent (requested.take 127)) m requested)
    (hrequested : ∀ c ∈ requested, c ≠ 0) (recType : UInt16) (fork : ForkMeta)
    (h : (catalogScanChild disk hfs secbuf (fileQuery parent (requested.take 127)) recType m).1.2
      = some (.file fork)) :
    ∃ pos, Leads disk hfs parent [requested] pos ∧ forkAt disk hfs pos = fork := by
  obtain ⟨pos, hrecord, hkey, hpos⟩ := hno.of_hit hrequested (.inr rfl) h
  obtain ⟨htakes, hhit⟩ := hitOf_eq_some hpos
  split_ifs at hhit with htype
  rcases htakes.2.2.2.2 with ⟨-, hq⟩ | ⟨htwo, -⟩
  · exact Bool.noConfusion hq
  · exact ⟨pos, Leads.file hrecord hkey htwo, (ScanHit.file.inj hhit).symm⟩

/-- **Soundness of the path walk**, if no lookup on the way is confused. -/
theorem hfsplusFindFile_sound {fuel : ℕ} {parent : UInt32} {fk : ForkMeta}
    (hzero : ∀ name ∈ pathComponents path, ∀ c ∈ name, c ≠ 0)
    (hno : ∀ parent m, ∀ name ∈ pathComponents path,
      NoConfusion disk hfs secbuf (folderQuery parent (name.take 127)) m name ∧
        NoConfusion disk hfs secbuf (fileQuery parent (name.take 127)) m name)
    (h : (hfsplusFindFile disk hfs secbuf fuel parent path m).1 = some fk) :
    ∃ pos, Leads disk hfs parent (pathComponents path) pos ∧ forkAt disk hfs pos = fk := by
  induction fuel generalizing parent path m with
  | zero => exact absurd h (Option.some_ne_none _).symm
  | succ fuel ih =>
    rw [hfsplusFindFile] at h
    cases hsplit : splitNextPathComponent path 128 with
    | none =>
      rw [hsplit] at h
      exact absurd h (Option.some_ne_none _).symm
    | some split =>
      obtain ⟨comp, rest⟩ := split
      obtain ⟨name, hparts, rfl⟩ := splitNextPathComponent_parts hsplit
      rw [hsplit] at h
      dsimp only at h
      rw [hparts] at hzero hno ⊢
      have hname : name ∈ name :: pathComponents rest := List.mem_cons_self
      by_cases hmore : pathHasMore rest = true
      · rw [if_pos hmore] at h
        have hhit := (hno parent m name hname).1.of_folder (hzero name hname) 0
        rw [folderQuery] at hhit
        generalize catalogScanChild disk hfs secbuf ⟨true, false, parent, name.take 127⟩ 0 m
          = result at h hhit
        obtain ⟨⟨rtype, _ | ⟨id⟩ | _⟩, m₁⟩ := result
        · exact absurd h (Option.some_ne_none _).symm
        · obtain ⟨dir, hrecord, hkey, htype, rfl⟩ := hhit id rfl
          dsimp only at h
          split_ifs at h with hrtype
          obtain ⟨pos, hleads, hfk⟩ := ih (fun name hname ↦ hzero name (List.mem_cons_of_mem _ hname))
            (fun parent m name hname ↦ hno parent m name (List.mem_cons_of_mem _ hname)) h
          exact ⟨pos, Leads.folder hrecord hkey htype hleads, hfk⟩
        · exact absurd h (Option.some_ne_none _).symm
      · rw [if_neg hmore] at h
        rw [pathHasMore_iff, not_not] at hmore
        rw [hmore]
        have hhit := (hno parent m name hname).2.of_file (hzero name hname) 0
        rw [fileQuery] at hhit
        generalize catalogScanChild disk hfs secbuf ⟨false, true, parent, name.take 127⟩ 0 m
          = result at h hhit
        obtain ⟨⟨rtype, _ | _ | ⟨fork⟩⟩, m₁⟩ := result
        · exact absurd h (Option.some_ne_none _).symm
        · exact absurd h (Option.some_ne_none _).symm
        · dsimp only at h
          split_ifs at h with hrtype
          obtain rfl := Option.some_inj.mp h
          exact hhit fork rfl

end Walk

/-! ### A file with an accent -/

/-- An entry that is no folder, and inside the node if it is a file. -/
theorem slotInside_of_ne_folder {b : ℕ → UInt8} {n o : ℕ} (hfolder : recordType b o ≠ 1)
    (hfile : recordType b o = 2 →
      o + 8 + 2 * (recordName b o).length ≤ n ∧ recordData b o + 168 ≤ n) (q : ScanQuery) :
    SlotInside b n o q := by
  rintro - (⟨hone, -⟩ | ⟨htwo, -⟩)
  · exact absurd hone hfolder
  · exact ⟨(hfile htwo).1, fun h ↦ absurd h hfolder, fun _ ↦ (hfile htwo).2⟩

theorem slotsInside_twoFiles : SlotsInside twoFilesDisk twoFiles := by
  have hscanned : scanned twoFilesDisk twoFiles = [(1, 2), (1, 1)] := by decide
  rw [SlotsInside, hscanned, List.forall_mem_cons, List.forall_mem_singleton]
  exact ⟨slotInside_of_ne_folder (by decide) (by decide),
    slotInside_of_ne_folder (by decide) (by decide)⟩

-- Statements about the elements of a list are decided along the list, not over all words.
attribute [local instance (high)] List.decidableBAll

/-- Where a scan with two entries ends if the first one contributes nothing. -/
theorem CatalogGeometry.place_eq {disk : Disk} {hfs : HfsVolume} {q : ScanQuery} {free : ℕ × ℕ}
    (hg : CatalogGeometry hfs) (hslots : SlotsInside disk hfs)
    (hscanned : scanned disk hfs = [free, pos])
    (hfree : hitOf disk hfs q free = none) {e : SeenEntry} (he : e ∈ seenEntries disk hfs secbuf m)
    (hhit : e.hit hfs secbuf q ≠ none) :
    e.place = pos ∧ hitOf disk hfs q pos = e.hit hfs secbuf q := by
  obtain ⟨hplace, hread⟩ := hg.mem_seenEntries (q := q) he
  replace hread := hread (hslots _ hplace q)
  rw [hscanned, List.mem_cons, List.mem_singleton] at hplace
  rcases hplace with heq | heq
  · rw [heq, hfree] at hread
    exact absurd hread.symm hhit
  · exact ⟨heq, heq ▸ hread⟩

/-- The sample with the file `é` in the place of `b`. -/
def accentDisk : Disk :=
  { twoFilesDisk with bytes := fun x ↦ if x = 42265 then 233 else twoFilesDisk.bytes x }

end CaribeOS
