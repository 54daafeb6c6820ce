import CaribeOS.Hfs.Replace

/-!
# The forks after a record is written

When the fork fields of one file record are written (`RecordWritten`), the volume has the same forks
as before (`RecordWritten.hasFork_iff`), and only the data fork of that file has other blocks
(`RecordWritten.blocksOf_data`, `RecordWritten.blocksOf_of_ne`).
-/

namespace CaribeOS.HfsScript

open FileScript Extents Ownership

/-- The contents `c'` are `c` with the fork fields of the file record at `pos` written: its node is
`b'` then. -/
structure RecordWritten (hfs : HFSPlusImage) (c c' : Contents) (pos : ℕ × ℕ) (b' : ℕ → UInt8)
    (size : ℕ) (extents : List (ℕ × ℕ)) : Prop where
  written : ForkWritten (c.node pos.1) b' (c.dataOffset hfs pos) size extents
  node : c'.node = Function.update c.node pos.1 b'
  leaves : c.LeavesOrdered hfs
  file : c.IsFile hfs pos

variable {i : ForkId} {k d size : ℕ} {b b' : ℕ → UInt8} {extents : List (ℕ × ℕ)}

namespace RecordWritten

variable {hfs : HFSPlusImage} {c c' : Contents} {pos p : ℕ × ℕ} {b' : ℕ → UInt8} {size n : ℕ}
  {extents : List (ℕ × ℕ)} (h : RecordWritten hfs c c' pos b' size extents)
include h

theorem kind_eq : c'.node n 8 = c.node n 8 := by
  rw [h.node]
  by_cases hpos : n = pos.1
  · rw [hpos, Function.update_self, h.written.agree 8 (by omega)]
  · rw [Function.update_of_ne hpos]

theorem sameKeys (hn : n < hfs.totalNodes) (hkind : c.node n 8 = 255) :
    SameKeys (c.node n) (c'.node n) hfs.nodeSize := by
  rw [h.node]
  by_cases hpos : n = pos.1
  · subst hpos
    rw [Function.update_self]
    exact (h.leaves _ hn hkind).sameKeys h.file.index_lt h.file.file h.written.agree
  · rw [Function.update_of_ne hpos]
    exact ⟨rfl, rfl, fun _ _ ↦ rfl, fun _ _ ↦ ⟨rfl, rfl, rfl, rfl, rfl⟩⟩

theorem leavesOrdered : c'.LeavesOrdered hfs := by
  intro n hn hkind
  rw [h.kind_eq] at hkind
  have hleaf := h.leaves n hn hkind
  refine (h.sameKeys hn hkind).leafRecords hleaf fun k hle hlt ↦ ?_
  rw [h.node]
  by_cases hpos : n = pos.1
  · subst hpos
    have hend := hleaf.end_le pos.2 h.file.index_lt
    rw [recordEnd_file (by exact h.file.file)] at hend
    rw [Function.update_self]
    refine h.written.agree k (Or.inr ?_)
    rw [Contents.dataOffset, Contents.offset]
    omega
  · rw [Function.update_of_ne hpos]

section Record

variable (hn : p.1 < hfs.totalNodes) (hkind : c.node p.1 8 = 255)
  (hindex : p.2 < numRecords (c.node p.1))
include hn hkind hindex

theorem offset_eq : c'.offset hfs p = c.offset hfs p := (h.sameKeys hn hkind).offset p.2 hindex.le

theorem sameRecord : SameRecord (c.node p.1) (c'.node p.1) (c.offset hfs p) :=
  (h.sameKeys hn hkind).record p.2 hindex

theorem dataOffset_eq : c'.dataOffset hfs p = c.dataOffset hfs p := by
  rw [Contents.dataOffset, h.offset_eq hn hkind hindex, (h.sameRecord hn hkind hindex).data,
    Contents.dataOffset]

end Record

theorem isFile_iff : c'.IsFile hfs p ↔ c.IsFile hfs p := by
  constructor
  · rintro ⟨hn, hkind, hindex, htype⟩
    rw [h.kind_eq] at hkind
    rw [(h.sameKeys hn hkind).num] at hindex
    rw [h.offset_eq hn hkind hindex, (h.sameRecord hn hkind hindex).type] at htype
    exact ⟨hn, hkind, hindex, htype⟩
  · rintro ⟨hn, hkind, hindex, htype⟩
    refine ⟨hn, by rw [h.kind_eq, hkind], by rw [(h.sameKeys hn hkind).num]; exact hindex, ?_⟩
    rw [h.offset_eq hn hkind hindex, (h.sameRecord hn hkind hindex).type, htype]

/-- **The same forks.** -/
theorem hasFork_iff : c'.HasFork hfs i ↔ c.HasFork hfs i := by
  cases i with
  | system i => exact Iff.rfl
  | data p => exact h.isFile_iff
  | resource p => exact h.isFile_iff

theorem byte_eq_of_ne (hn : p.1 < hfs.totalNodes) (hkind : c.node p.1 8 = 255)
    (hindex : p.2 < numRecords (c.node p.1)) (hp : p ≠ pos) (hle : c.offset hfs p ≤ k)
    (hlt : k < recordEnd (c.node p.1) (c.offset hfs p)) : c'.node p.1 k = c.node p.1 k := by
  rw [h.node]
  by_cases hpos : p.1 = pos.1
  · rw [hpos, Function.update_self]
    refine h.written.agree k ?_
    -- two records of one node
    have hne : p.2 ≠ pos.2 := fun hi ↦ hp (Prod.ext hpos hi)
    have hleaf := h.leaves _ hn hkind
    rw [Contents.offset] at hle hlt
    rw [hpos] at hleaf hindex hle hlt
    have hend := recordEnd_file h.file.file
    rw [Contents.offset] at hend
    have hdisjoint := hleaf.disjoint p.2 hindex pos.2 h.file.index_lt hne
    rw [Contents.dataOffset, Contents.offset]
    have hdata : recordData (c.node pos.1) (recordOffset (c.node pos.1) hfs.nodeSize pos.2)
        = recordOffset (c.node pos.1) hfs.nodeSize pos.2 + 2 + _ := rfl
    rcases hdisjoint with hbefore | hbehind
    · exact Or.inl (by omega)
    · exact Or.inr (by omega)
  · rw [Function.update_of_ne hpos]

/-- The bytes of a file record stay, with the exception of the data fork of the one that is
written. -/
theorem byte_eq (hfile : c.IsFile hfs p) (hle : c.dataOffset hfs p + 88 ≤ k)
    (hlt : k < c.dataOffset hfs p + 248) (hne : p ≠ pos ∨ c.dataOffset hfs p + 168 ≤ k) :
    c'.node p.1 k = c.node p.1 k := by
  by_cases hp : p = pos
  · rw [hp] at hle hlt hne ⊢
    rw [h.node, Function.update_self]
    exact h.written.agree k (Or.inr (hne.resolve_left fun hne ↦ hne rfl))
  · have hend := recordEnd_file hfile.file
    have hdata : c.dataOffset hfs p = c.offset hfs p + 2 + _ := rfl
    rw [← Contents.dataOffset] at hend
    exact h.byte_eq_of_ne hfile.node_lt hfile.leaf hfile.index_lt hp (by omega) (by omega)

/-- **The data fork of the file** has the blocks that are written. -/
theorem blocksOf_data : c'.blocksOf hfs (.data pos) = blocks extents := by
  rw [Contents.blocksOf, h.dataOffset_eq h.file.node_lt h.file.leaf h.file.index_lt, h.node,
    Function.update_self, h.written.blocks_eq]

theorem blocksOf_data_of_ne (hfile : c.IsFile hfs p) (hp : p ≠ pos) :
    c'.blocksOf hfs (.data p) = c.blocksOf hfs (.data p) := by
  rw [Contents.blocksOf, Contents.blocksOf,
    h.dataOffset_eq hfile.node_lt hfile.leaf hfile.index_lt,
    extentsAt_congr fun k hle hlt ↦ h.byte_eq hfile (by omega) (by omega) (Or.inl hp)]

theorem blocksOf_resource (hfile : c.IsFile hfs p) :
    c'.blocksOf hfs (.resource p) = c.blocksOf hfs (.resource p) := by
  rw [Contents.blocksOf, Contents.blocksOf,
    h.dataOffset_eq hfile.node_lt hfile.leaf hfile.index_lt,
    extentsAt_congr fun k hle hlt ↦ h.byte_eq hfile (by omega) (by omega) (Or.inr (by omega))]

/-- **All other forks** have the blocks they had. -/
theorem blocksOf_of_ne (hheader : ∀ i : Fin 5, c'.blocksOf hfs (.system i)
      = c.blocksOf hfs (.system i)) (hi : c.HasFork hfs i) (hne : i ≠ .data pos) :
    c'.blocksOf hfs i = c.blocksOf hfs i := by
  cases i with
  | system i => exact hheader i
  | data p => exact h.blocksOf_data_of_ne hi fun heq ↦ hne (by rw [heq])
  | resource p => exact h.blocksOf_resource hi

end RecordWritten

/-! ## Replacing a file -/

theorem ForkWritten.overlay_eq {n : ℕ} (h : ForkWritten b b' d size extents) (hn : d + 168 ≤ n) :
    overlay n b' b = b' := by
  funext k
  by_cases hk : k < n
  · exact overlay_of_lt hk
  · rw [overlay_of_le (by omega), h.agree k (by omega)]

theorem ForkWritten.overlay_agree (h : ForkWritten b b' d size extents) (n k : ℕ)
    (hk : k < d + 88 ∨ d + 168 ≤ k) : overlay n b' b k = b k := by
  rw [overlay]
  split_ifs
  · exact h.agree k hk
  · rfl

theorem Reserves.overlay_eq {hfs : HFSPlusImage} {c : Contents} {old : List ℕ} {needed start : ℕ}
    {bm : ℕ → UInt8} (h : Reserves hfs c old needed start bm) :
    overlay hfs.allocation.size bm c.bitmap = bm := by
  funext k
  by_cases hk : k < hfs.allocation.size
  · exact overlay_of_lt hk
  · rw [overlay_of_le (by omega), h.tail k (by omega)]

namespace Sound

variable {img : Buf} {hfs : HFSPlusImage} (s : Sound img hfs)
  {payload vh : Buf} {pos : ℕ × ℕ} {extents : List (ℕ × ℕ)} {dws nws bws : List Write}
  {b' bm : ℕ → UInt8} {old : List ℕ} {needed start free : ℕ}
include s

theorem tree_le (hvisited : (contents hfs img).Visited hfs pos)
    (hfile : (contents hfs img).IsFile hfs pos) : 40 ≤ pos.1 * hfs.nodeSize := by
  have hfirst := s.firstLeaf_pos.trans hvisited.first_le
  obtain ⟨hstart, hend⟩ := s.dataOffset_le hfile
  calc 40 ≤ 1 * hfs.nodeSize := by omega
    _ ≤ pos.1 * hfs.nodeSize := Nat.mul_le_mul_right _ hfirst

theorem contents_inPlace (hvisited : (contents hfs img).Visited hfs pos)
    (hfile : (contents hfs img).IsFile hfs pos)
    (hblocks : blocks extents = (contents hfs img).blocksOf hfs (.data pos))
    (h : Stores hfs (contents hfs img) payload pos extents dws nws b') :
    (img.writes (dws ++ nws)).size = img.size ∧ contents hfs (img.writes (dws ++ nws))
      = { contents hfs img with
          node := Function.update (contents hfs img).node pos.1 b' } := by
  obtain ⟨hstart, hend⟩ := s.dataOffset_le hfile
  obtain ⟨hsize, hcontents⟩ := h.contents_all s.geometry (by rw [hblocks]; exact s.avoids_data hfile)
    hfile.node_lt (s.tree_le hvisited hfile)
  rw [h.written.overlay_eq (by omega)] at hcontents
  exact ⟨hsize, hcontents⟩

/-- The contents while the header and the bitmap are written: a first part of the bitmap is new. -/
theorem contents_reserving {len : ℕ} (hheader : HeaderPut (contents hfs img) vh free)
    (hputs : Puts hfs.blockSize (bitmapBlocks hfs) 0 bm len bws) (hlen : len ≤ hfs.allocation.size) :
    (img.writes (⟨1024, vh⟩ :: bws)).size = img.size ∧
      contents hfs (img.writes (⟨1024, vh⟩ :: bws)) = { contents hfs img with
        header := overlay 512 vh.byte (contents hfs img).header
        bitmap := overlay len bm (contents hfs img).bitmap } := by
  have g := s.geometry
  have hsize₁ : (img.writes [⟨1024, vh⟩]).size = img.size :=
    g.size_writes s.owned.reserved_lt (g.touches_header hheader.size)
  have g₁ : Geometry hfs (img.writes [⟨1024, vh⟩]).size := hsize₁.symm ▸ g
  have hsplit : img.writes (⟨1024, vh⟩ :: bws) = (img.writes [⟨1024, vh⟩]).writes bws := rfl
  rw [hsplit]
  refine ⟨?_, ?_⟩
  · rw [g₁.size_writes (S := (· ∈ bitmapBlocks hfs)) g.bitmap_lt (hputs.touches g.blockSize_pos),
      hsize₁]
  · rw [g₁.contents_bitmap hputs hlen, g.contents_header hheader.size]

theorem contents_reserved (hheader : HeaderPut (contents hfs img) vh free)
    (hreserves : Reserves hfs (contents hfs img) old needed start bm)
    (hputs : Puts hfs.blockSize (bitmapBlocks hfs) 0 bm hfs.allocation.size bws) :
    (img.writes (⟨1024, vh⟩ :: bws)).size = img.size ∧
      contents hfs (img.writes (⟨1024, vh⟩ :: bws)) = { contents hfs img with
        header := overlay 512 vh.byte (contents hfs img).header
        bitmap := bm } := by
  have hpart := s.contents_reserving hheader hputs le_rfl
  rwa [hreserves.overlay_eq] at hpart

theorem contents_moved (hvisited : (contents hfs img).Visited hfs pos)
    (hfile : (contents hfs img).IsFile hfs pos) (hheader : HeaderPut (contents hfs img) vh free)
    (hreserves : Reserves hfs (contents hfs img) old needed start bm)
    (hputs : Puts hfs.blockSize (bitmapBlocks hfs) 0 bm hfs.allocation.size bws)
    (h : Stores hfs (contents hfs img) payload pos [(start, needed)] dws nws b') :
    (img.writes (⟨1024, vh⟩ :: bws ++ (dws ++ nws))).size = img.size ∧
      contents hfs (img.writes (⟨1024, vh⟩ :: bws ++ (dws ++ nws)))
        = { contents hfs img with
            header := overlay 512 vh.byte (contents hfs img).header
            bitmap := bm
            node := Function.update (contents hfs img).node pos.1 b' } := by
  obtain ⟨hstart, hend⟩ := s.dataOffset_le hfile
  obtain ⟨hsize₁, hcontents₁⟩ := s.contents_reserved hheader hreserves hputs
  have g₁ : Geometry hfs (img.writes (⟨1024, vh⟩ :: bws)).size := hsize₁.symm ▸ s.geometry
  have hblocks : blocks [(start, needed)] = List.range' start needed := List.append_nil _
  rw [Buf.writes_append]
  obtain ⟨hsize, hcontents⟩ := h.contents_all g₁
    (by rw [hblocks]; exact s.avoids_free hreserves.free) hfile.node_lt (s.tree_le hvisited hfile)
  rw [hcontents₁] at hcontents
  rw [h.written.overlay_eq (by omega)] at hcontents
  exact ⟨hsize.trans hsize₁, hcontents⟩

end Sound

end CaribeOS.HfsScript
