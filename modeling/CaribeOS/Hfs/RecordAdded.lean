import CaribeOS.Hfs.Accounting
import CaribeOS.Hfs.Create

/-!
# The forks after a record is added

When a file record is put into the first leaf (`RecordAdded`), there is one file more
(`RecordAdded.isFile_iff`), at the end of that leaf. All other records are where they were, with their
keys and their forks. The data fork of the new file has the blocks of its extent.

With this, an image whose accounts are right stays so when a file is created (`Accounted.created`).
-/

namespace CaribeOS.HfsScript

open FileScript Extents Ownership

/-- The contents `c'` are `c` with a file record put into the first leaf, whose bytes are `b'` then. -/
structure RecordAdded (hfs : HFSPlusImage) (c c' : Contents) (b' : ℕ → UInt8) (name : List Char)
    (size : ℕ) (extent : ℕ × ℕ) : Prop where
  inserted : Inserted (c.node hfs.firstLeaf) b' hfs.nodeSize name size extent
  node : c'.node = Function.update c.node hfs.firstLeaf b'
  leaves : c.LeavesOrdered hfs
  first_lt : hfs.firstLeaf < hfs.totalNodes

/-- The place of a record that is added. -/
def Contents.newPos (hfs : HFSPlusImage) (c : Contents) : ℕ × ℕ :=
  (hfs.firstLeaf, numRecords (c.node hfs.firstLeaf))

namespace RecordAdded

variable {hfs : HFSPlusImage} {c c' : Contents} {b' : ℕ → UInt8} {name : List Char} {size n : ℕ}
  {extent : ℕ × ℕ} {p : ℕ × ℕ} (h : RecordAdded hfs c c' b' name size extent)
include h

theorem node_first : c'.node hfs.firstLeaf = b' := by rw [h.node, Function.update_self]

theorem node_of_ne (hne : n ≠ hfs.firstLeaf) : c'.node n = c.node n := by
  rw [h.node, Function.update_of_ne hne]

theorem kind_eq : c'.node n 8 = c.node n 8 := by
  by_cases hn : n = hfs.firstLeaf
  · rw [hn, h.node_first, h.inserted.descriptor 8 (by omega)]
  · rw [h.node_of_ne hn]

theorem first : LeafRecords b' hfs.nodeSize ∧
    ∀ i < numRecords (c.node hfs.firstLeaf), SameRecord (c.node hfs.firstLeaf) b'
      (recordOffset (c.node hfs.firstLeaf) hfs.nodeSize i) := by
  have hins := h.inserted
  have hleaf := h.leaves _ h.first_lt hins.can.leaf
  have hroom := hins.can.room
  have heven := hleaf.free_even
  refine hleaf.insert hins.num (by omega) hins.offset hins.new hins.free (by omega) (by omega)
    hins.old hins.zero ?_ hins.record.recordEnd_eq
  rw [hins.record.units, hins.record.keyLength, nameUnits, List.length_map]

theorem leavesOrdered : c'.LeavesOrdered hfs := by
  intro n hn hkind
  by_cases hfirst : n = hfs.firstLeaf
  · rw [hfirst, h.node_first]
    exact h.first.1
  · rw [h.kind_eq] at hkind
    rw [h.node_of_ne hfirst]
    exact h.leaves n hn hkind

theorem numRecords_eq : numRecords (c'.node n)
    = if n = hfs.firstLeaf then numRecords (c.node n) + 1 else numRecords (c.node n) := by
  split_ifs with hn
  · rw [hn, h.node_first, h.inserted.num]
  · rw [h.node_of_ne hn]

section Old

variable (hindex : p.2 < numRecords (c.node p.1))
include hindex

theorem offset_eq : c'.offset hfs p = c.offset hfs p := by
  rw [Contents.offset, Contents.offset]
  by_cases hn : p.1 = hfs.firstLeaf
  · rw [hn] at hindex ⊢
    rw [h.node_first, h.inserted.offset _ hindex]
  · rw [h.node_of_ne hn]

theorem sameRecord : SameRecord (c.node p.1) (c'.node p.1) (c.offset hfs p) := by
  by_cases hn : p.1 = hfs.firstLeaf
  · rw [Contents.offset]
    rw [hn] at hindex ⊢
    rw [h.node_first]
    exact h.first.2 _ hindex
  · rw [h.node_of_ne hn]
    exact ⟨rfl, rfl, rfl, rfl, rfl⟩

theorem dataOffset_eq : c'.dataOffset hfs p = c.dataOffset hfs p := by
  rw [Contents.dataOffset, h.offset_eq hindex, (h.sameRecord hindex).data, Contents.dataOffset]

theorem byte_eq {k : ℕ} (hle : c.offset hfs p ≤ k)
    (hlt : k < recordEnd (c.node p.1) (c.offset hfs p)) : c'.node p.1 k = c.node p.1 k := by
  by_cases hn : p.1 = hfs.firstLeaf
  · have hleaf := h.leaves _ h.first_lt h.inserted.can.leaf
    rw [Contents.offset] at hle hlt
    rw [hn] at hindex hle hlt ⊢
    have hstart := hleaf.offset _ hindex
    have hend := hleaf.end_le _ hindex
    rw [h.node_first]
    exact h.inserted.old k (by omega) (by omega)
  · rw [h.node_of_ne hn]

end Old

/-! ### The new record -/

theorem offset_new : c'.offset hfs (c.newPos hfs) = freeOffset (c.node hfs.firstLeaf) hfs.nodeSize := by
  rw [Contents.offset, Contents.newPos]
  rw [h.node_first, h.inserted.new]

theorem record_new : FileRecord (c'.node hfs.firstLeaf) (c'.offset hfs (c.newPos hfs)) name size
    extent := by
  rw [h.offset_new, h.node_first]
  exact h.inserted.record

theorem dataOffset_new : c'.dataOffset hfs (c.newPos hfs)
    = c'.offset hfs (c.newPos hfs) + 8 + 2 * name.length := by
  exact h.record_new.recordData_eq

/-- **One file more.** -/
theorem isFile_iff : c'.IsFile hfs p ↔ c.IsFile hfs p ∨ p = c.newPos hfs := by
  constructor
  · rintro ⟨hn, hkind, hindex, htype⟩
    rw [h.kind_eq] at hkind
    by_cases hold : p.2 < numRecords (c.node p.1)
    · rw [h.offset_eq hold, (h.sameRecord hold).type] at htype
      exact Or.inl ⟨hn, hkind, hold, htype⟩
    · rw [h.numRecords_eq] at hindex
      split_ifs at hindex with hfirst
      · rw [hfirst] at hold hindex
        exact Or.inr (Prod.ext hfirst (by rw [Contents.newPos]; omega))
      · exact absurd hindex hold
  · rintro (⟨hn, hkind, hindex, htype⟩ | rfl)
    · refine ⟨hn, by rw [h.kind_eq, hkind], ?_, ?_⟩
      · rw [h.numRecords_eq]
        split_ifs <;> omega
      · rw [h.offset_eq hindex, (h.sameRecord hindex).type, htype]
    · refine ⟨h.first_lt, by rw [h.kind_eq]; exact h.inserted.can.leaf, ?_,
        h.record_new.recordType_eq⟩
      rw [h.numRecords_eq, Contents.newPos]
      dsimp only
      rw [if_pos rfl]
      omega

theorem blocksOf_new : c'.blocksOf hfs (.data (c.newPos hfs)) = List.range' extent.1 extent.2 := by
  rw [Contents.blocksOf, h.dataOffset_new]
  have hdata := h.record_new.data
  rw [Contents.newPos]
  rw [Contents.newPos] at hdata
  rw [hdata.extents, blocks_cons, blocks_replicate_zero, List.append_nil]

theorem blocksOf_newResource : c'.blocksOf hfs (.resource (c.newPos hfs)) = [] := by
  rw [Contents.blocksOf, h.dataOffset_new]
  have hdata := h.record_new.data
  rw [Contents.newPos]
  rw [Contents.newPos] at hdata
  rw [hdata.resource, blocks_replicate_zero]

/-- **The forks of the files that were there** have the blocks they had. -/
theorem blocksOf_old (hheader : ∀ i : Fin 5, c'.blocksOf hfs (.system i)
      = c.blocksOf hfs (.system i)) {i : ForkId} (hi : c.HasFork hfs i) :
    c'.blocksOf hfs i = c.blocksOf hfs i := by
  have hbyte : ∀ p, c.IsFile hfs p → ∀ k, c.dataOffset hfs p ≤ k → k < c.dataOffset hfs p + 248 →
      c'.node p.1 k = c.node p.1 k := by
    intro p hfile k hle hlt
    have hend := recordEnd_file hfile.file
    rw [Contents.dataOffset] at hle hlt
    have hdata : recordData (c.node p.1) (c.offset hfs p) = c.offset hfs p + 2 + _ := rfl
    exact h.byte_eq hfile.index_lt (by omega) (by omega)
  cases i with
  | system i => exact hheader i
  | data p =>
    have hfile : c.IsFile hfs p := hi
    rw [Contents.blocksOf, Contents.blocksOf, h.dataOffset_eq hfile.index_lt,
      extentsAt_congr fun k hle hlt ↦ hbyte p hfile k (by omega) (by omega)]
  | resource p =>
    have hfile : c.IsFile hfs p := hi
    rw [Contents.blocksOf, Contents.blocksOf, h.dataOffset_eq hfile.index_lt,
      extentsAt_congr fun k hle hlt ↦ hbyte p hfile k (by omega) (by omega)]

end RecordAdded

/-! ## Creating a file -/

theorem Inserted.overlay_eq {b b' : ℕ → UInt8} {n size : ℕ} {name : List Char} {extent : ℕ × ℕ}
    (h : Inserted b b' n name size extent) : overlay n b' b = b' := by
  funext k
  by_cases hk : k < n
  · exact overlay_of_lt hk
  · rw [overlay_of_le (by omega), h.behind k (by omega)]

variable {path : List Char} {ws : List Write}

section Created

variable {img payload vh vh' : Buf} {hfs : HFSPlusImage} {start : ℕ} {bm b' : ℕ → UInt8}
  {bws dws nws : List Write} {name : List Char}

theorem Sound.contents_created (s : Sound img hfs)
    (hdata : DataPut hfs (contents hfs img) payload start bm vh bws dws)
    (hcounted : Counted (overlay 512 vh.byte (contents hfs img).header) vh')
    (hins : Inserted ((contents hfs img).node hfs.firstLeaf) b' hfs.nodeSize name payload.size
      (start, ceilDiv payload.size hfs.blockSize))
    (hputs : PutsInOrder hfs.blockSize (catalogBlocks hfs) (hfs.firstLeaf * hfs.nodeSize) b'
      hfs.nodeSize nws) :
    (img.writes (⟨1024, vh⟩ :: bws ++ dws ++ ⟨1024, vh'⟩ :: nws)).size = img.size ∧
      contents hfs (img.writes (⟨1024, vh⟩ :: bws ++ dws ++ ⟨1024, vh'⟩ :: nws))
        = { contents hfs img with
            header := overlay 512 vh'.byte (overlay 512 vh.byte (contents hfs img).header)
            bitmap := bm
            node := Function.update (contents hfs img).node hfs.firstLeaf b' } := by
  obtain ⟨hsize₁, hcontents₁⟩ := s.contents_dataPut hdata
  rw [Buf.writes_append]
  generalize img.writes (⟨1024, vh⟩ :: bws ++ dws) = img₁ at hsize₁ hcontents₁ ⊢
  have g₁ : Geometry hfs img₁.size := hsize₁.symm ▸ s.geometry
  have hsize₂ : (img₁.writes [⟨1024, vh'⟩]).size = img₁.size :=
    g₁.size_writes s.owned.reserved_lt (g₁.touches_header hcounted.size)
  have hcontents₂ := g₁.contents_header hcounted.size
  have hsplit : img₁.writes (⟨1024, vh'⟩ :: nws) = (img₁.writes [⟨1024, vh'⟩]).writes nws := rfl
  rw [hsplit]
  generalize img₁.writes [⟨1024, vh'⟩] = img₂ at hsize₂ hcontents₂ ⊢
  have g₂ : Geometry hfs img₂.size := hsize₂.symm ▸ g₁
  have hfirst : hfs.firstLeaf < hfs.totalNodes := s.firstLeaf_le.trans_lt s.leaves
  have hroom := hins.can.room
  have htree : 40 ≤ hfs.firstLeaf * hfs.nodeSize :=
    calc 40 ≤ 1 * hfs.nodeSize := by omega
      _ ≤ hfs.firstLeaf * hfs.nodeSize := Nat.mul_le_mul_right _ s.firstLeaf_pos
  constructor
  · rw [g₂.size_writes (S := (· ∈ catalogBlocks hfs)) g₂.catalog_lt
      (hputs.all.touches g₂.blockSize_pos), hsize₂, hsize₁]
  · rw [g₂.contents_node hputs.all hfirst le_rfl htree, hcontents₂, hcontents₁]
    rw [hins.overlay_eq]

/-- **What a create has written**, if it succeeds. -/
theorem Sound.createRootFile_ok (s : Sound img hfs)
    (hrun : createRootFile path payload img = (.ok (), ws)) :
    CanReserve hfs img (stripSlashes path) payload.size ∧
      ∃ start bm vh bws dws vh' b' nws,
        DataPut hfs (contents hfs img) payload start bm vh bws dws ∧
        Counted (overlay 512 vh.byte (contents hfs img).header) vh' ∧
        PutsInOrder hfs.blockSize (catalogBlocks hfs) (hfs.firstLeaf * hfs.nodeSize) b'
          hfs.nodeSize nws ∧
        ws = ⟨1024, vh⟩ :: bws ++ dws ++ ⟨1024, vh'⟩ :: nws ∧
        (img.writes ws).size = img.size ∧
        contents hfs (img.writes ws) = { contents hfs img with
          header := overlay 512 vh'.byte (overlay 512 vh.byte (contents hfs img).header)
          bitmap := bm
          node := Function.update (contents hfs img).node hfs.firstLeaf b' } ∧
        RecordAdded hfs (contents hfs img) (contents hfs (img.writes ws)) b' (stripSlashes path)
          payload.size (start, ceilDiv payload.size hfs.blockSize) := by
  have hcan : CanReserve hfs img (stripSlashes path) payload.size := by
    by_contra hnot
    obtain ⟨e, herror⟩ := s.createRootFile_early hnot
    rw [hrun] at herror
    cases herror
  obtain ⟨start, bm, vh, bws, dws, hdata, ⟨-, e, herror⟩ | ⟨-, vh', hcounted,
    ⟨-, e, herror⟩ | ⟨b', nws, hok, hins, hputs⟩⟩⟩ := s.createRootFile_cases hcan
  · rw [hrun] at herror
    cases herror
  · rw [hrun] at herror
    cases herror
  obtain rfl : ws = _ := congrArg Prod.snd (hrun.symm.trans hok)
  obtain ⟨hsize, hcontents⟩ := s.contents_created hdata hcounted hins hputs
  exact ⟨hcan, start, bm, vh, bws, dws, vh', b', nws, hdata, hcounted, hputs, rfl, hsize, hcontents,
    hins, by rw [hcontents], s.leaf, s.firstLeaf_le.trans_lt s.leaves⟩

/-- **A successful create** keeps the image in order. -/
theorem Sound.created (s : Sound img hfs) (hrun : createRootFile path payload img = (.ok (), ws)) :
    Sound (img.writes ws)
      { hfs with freeBlocks := hfs.freeBlocks - ceilDiv payload.size hfs.blockSize } := by
  obtain ⟨-, start, bm, vh, bws, dws, vh', b', nws, hdata, hcounted, -, -, hsize, hcontents, h⟩ :=
    s.createRootFile_ok hrun
  generalize img.writes ws = img' at hsize hcontents h ⊢
  have hbitmap : (contents hfs img').bitmap = bm := by rw [hcontents]
  have hhead : ∀ k < 512, ¬(32 ≤ k ∧ k < 36) → ¬(60 ≤ k ∧ k < 64) →
      (contents hfs img').header k = vh.byte k := by
    intro k hk hcount hid
    rw [hcontents]
    dsimp only
    rw [overlay_of_lt hk, hcounted.kept k hk hcount hid, overlay_of_lt hk]
  have hkept : HeaderKept (contents hfs img).header (contents hfs img').header := by
    intro k hk hcount hfree hid
    rw [hhead k hk hcount hid, hdata.header.kept k hk (by omega)]
  have hsystem : ∀ i : Fin 5, (contents hfs img').blocksOf hfs (.system i)
      = (contents hfs img).blocksOf hfs (.system i) := by
    intro i
    rw [Contents.blocksOf, Contents.blocksOf,
      extentsAt_congr fun k hle hlt ↦ hkept k (by omega) (by omega) (by omega) (by omega)]
  obtain ⟨hset, hkeep⟩ := hdata.reserves.marked fun b hb ↦ absurd hb List.not_mem_nil
  have howned : (contents hfs img').BlocksOwned hfs := by
    refine s.owned.assign (fun i hi hne ↦ ?_) h.blocksOf_new List.nodup_range' hdata.reserves.free
      (fun b hb ↦ ?_) (fun b hb ↦ absurd hb List.not_mem_nil) fun b hb hnot ↦ ?_
    · cases i with
      | system i => exact Or.inr ⟨trivial, hsystem i⟩
      | data p =>
        rcases h.isFile_iff.mp hi with hfile | rfl
        · exact Or.inr ⟨hfile, h.blocksOf_old hsystem (i := .data p) hfile⟩
        · exact absurd rfl hne
      | resource p =>
        rcases h.isFile_iff.mp hi with hfile | rfl
        · exact Or.inr ⟨hfile, h.blocksOf_old hsystem (i := .resource p) hfile⟩
        · exact Or.inl h.blocksOf_newResource
    · rw [Contents.Marked, hbitmap]
      exact hset b hb
    · rw [Contents.Marked, hbitmap]
      exact hkeep b hb hnot
  have hfree : (CaribeOS.be32 (contents hfs img').header 48).toNat
      = hfs.freeBlocks - ceilDiv payload.size hfs.blockSize := by
    rw [be32_congr fun k hle hlt ↦ hhead k (by omega) (by omega) (by omega), hdata.header.free]
  have hsound := s.of_contents hsize hkept (by rw [hcontents]) h.leavesOrdered howned
  rwa [hfree] at hsound

/-- **A successful create** keeps the accounts right. -/
theorem Accounted.created (a : Accounted img hfs)
    (hrun : createRootFile path payload img = (.ok (), ws)) :
    Accounted (img.writes ws)
      { hfs with freeBlocks := hfs.freeBlocks - ceilDiv payload.size hfs.blockSize } := by
  refine ⟨a.sound.created hrun, a.bitmap_size, ?_⟩
  obtain ⟨-, start, bm, vh, bws, dws, vh', b', nws, hdata, -, -, -, -, hcontents, -⟩ :=
    a.sound.createRootFile_ok hrun
  have hreserves := hdata.reserves
  have hbitmap : (contents hfs (img.writes ws)).bitmap = bm := by rw [hcontents]
  rw [← hbitmap] at hreserves
  have hcard := hreserves.card_freeBits List.nodup_nil fun b hb ↦ absurd hb List.not_mem_nil
  rw [List.length_nil] at hcard
  have hbefore := a.free
  change hfs.freeBlocks - _ = (freeBits hfs (contents hfs (img.writes ws))).card
  omega

end Created

end CaribeOS.HfsScript
