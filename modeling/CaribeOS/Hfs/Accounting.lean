import CaribeOS.Hfs.RecordWritten

/-!
# The block accounts of an image

`Accounted`: an image is in order, and the number of free blocks in its volume header is the number of
blocks that the bitmap does not mark.
-/

namespace CaribeOS.HfsScript

open FileScript Extents Ownership

/-- The blocks below `totalBlocks` that are not marked. -/
def freeBits (hfs : HFSPlusImage) (c : Contents) : Finset ℕ :=
  Bitmap.clearBits (Bitmap.getBit c.bitmap) hfs.totalBlocks

/-- **The accounts are right.** -/
structure Accounted (img : Buf) (hfs : HFSPlusImage) : Prop where
  sound : Sound img hfs
  bitmap_size : hfs.totalBlocks ≤ 8 * hfs.allocation.size
  free : hfs.freeBlocks = (freeBits hfs (contents hfs img)).card

/-! ## Replacing a file -/

variable {c : Contents} {needed start : ℕ} {old : List ℕ}

section Replace

variable {img : Buf} {hfs : HFSPlusImage}

theorem Contents.not_marked_iff {b : ℕ} :
    ¬c.Marked b ↔ Bitmap.getBit c.bitmap b = false := Bool.eq_false_iff.symm

theorem Reserves.marked {bm : ℕ → UInt8} (h : Reserves hfs c old needed start bm)
    (hold : ∀ b ∈ old, c.Marked b) :
    (∀ b ∈ List.range' start needed, Bitmap.getBit bm b = true) ∧
      ∀ b, c.Marked b → b ∉ old → Bitmap.getBit bm b = true := by
  constructor
  · intro b hb
    rw [h.bit, if_neg fun ho ↦ (h.free b hb).2 (hold b ho), if_pos hb]
  · intro b hmarked hnot
    rw [h.bit, if_neg hnot]
    split_ifs with hrun
    · rfl
    · exact hmarked

theorem Reserves.card_freeBits {c' : Contents} (h : Reserves hfs c old needed start c'.bitmap)
    (hnodup : old.Nodup) (hold : ∀ b ∈ old, b < hfs.totalBlocks ∧ c.Marked b) :
    (freeBits hfs c').card + needed = (freeBits hfs c).card + old.length := by
  have hcard := @Bitmap.card_clearBits_add (Bitmap.getBit c.bitmap) (Bitmap.getBit c'.bitmap)
    hfs.totalBlocks (List.range' start needed) old
    (fun b hb ↦ ⟨(h.free b hb).1, Contents.not_marked_iff.mp (h.free b hb).2⟩) hold
    List.nodup_range' hnodup (h.marked fun b hb ↦ (hold b hb).2).1
    (fun b hb ↦ by rw [h.bit, if_pos hb])
    (fun b hrun hnot ↦ by rw [h.bit, if_neg hnot, if_neg hrun])
  rwa [List.length_range'] at hcard

variable {pos : ℕ × ℕ} {extents : List (ℕ × ℕ)} {b' : ℕ → UInt8} {size : ℕ} {img' : Buf}

theorem Sound.inPlace (s : Sound img hfs) (hsize : img'.size = img.size)
    (hcontents : contents hfs img' = { contents hfs img with
      node := Function.update (contents hfs img).node pos.1 b' })
    (h : RecordWritten hfs (contents hfs img) (contents hfs img') pos b' size extents)
    (hblocks : blocks extents = (contents hfs img).blocksOf hfs (.data pos)) :
    Sound img' hfs := by
  have hheader : (contents hfs img').header = (contents hfs img).header := by rw [hcontents]
  have htree : (contents hfs img').tree = (contents hfs img).tree := by rw [hcontents]
  have hbitmap : (contents hfs img').bitmap = (contents hfs img).bitmap := by rw [hcontents]
  have hsystem : ∀ i : Fin 5, (contents hfs img').blocksOf hfs (.system i)
      = (contents hfs img).blocksOf hfs (.system i) := by
    intro i
    rw [Contents.blocksOf, hheader, Contents.blocksOf]
  have howned : (contents hfs img').BlocksOwned hfs := by
    refine s.owned.congr (fun i hi ↦ h.hasFork_iff.mp hi) (fun i hi ↦ ?_) fun b hb ↦ ?_
    · by_cases hne : i = .data pos
      · rw [hne, h.blocksOf_data, hblocks]
      · exact h.blocksOf_of_ne hsystem (h.hasFork_iff.mp hi) hne
    · rw [Contents.Marked, hbitmap]
      exact hb
  have hsound := s.of_contents hsize (fun k _ _ _ _ ↦ by rw [hheader]) htree h.leavesOrdered howned
  rwa [hheader, ← s.freeBlocks_eq] at hsound

theorem Accounted.inPlace (a : Accounted img hfs) (hsize : img'.size = img.size)
    (hcontents : contents hfs img' = { contents hfs img with
      node := Function.update (contents hfs img).node pos.1 b' })
    (h : RecordWritten hfs (contents hfs img) (contents hfs img') pos b' size extents)
    (hblocks : blocks extents = (contents hfs img).blocksOf hfs (.data pos)) :
    Accounted img' hfs := by
  refine ⟨a.sound.inPlace hsize hcontents h hblocks, a.bitmap_size, ?_⟩
  rw [freeBits, hcontents]
  exact a.free

section Moved

variable {vh : Buf} {bm : ℕ → UInt8} {start needed free : ℕ}
  (hsize : img'.size = img.size)
  (hcontents : contents hfs img' = { contents hfs img with
    header := overlay 512 vh.byte (contents hfs img).header
    bitmap := bm
    node := Function.update (contents hfs img).node pos.1 b' })
  (h : RecordWritten hfs (contents hfs img) (contents hfs img') pos b' size [(start, needed)])
  (hheader : HeaderPut (contents hfs img) vh free)
  (hreserves : Reserves hfs (contents hfs img) ((contents hfs img).blocksOf hfs (.data pos))
    needed start bm)
include hsize hcontents h hheader hreserves

theorem Sound.moved (s : Sound img hfs) : Sound img' { hfs with freeBlocks := free } := by
  have hhead : (contents hfs img').header = overlay 512 vh.byte (contents hfs img).header := by
    rw [hcontents]
  have htree : (contents hfs img').tree = (contents hfs img).tree := by rw [hcontents]
  have hbitmap : (contents hfs img').bitmap = bm := by rw [hcontents]
  have hkept : ∀ k < 512, k < 48 ∨ 52 ≤ k →
      (contents hfs img').header k = (contents hfs img).header k := by
    intro k hk hne
    rw [hhead, overlay_of_lt hk, hheader.kept k hk hne]
  have hsystem : ∀ i : Fin 5, (contents hfs img').blocksOf hfs (.system i)
      = (contents hfs img).blocksOf hfs (.system i) := by
    intro i
    rw [Contents.blocksOf, Contents.blocksOf,
      extentsAt_congr fun k hle hlt ↦ hkept k (by omega) (by omega)]
  obtain ⟨hset, hkeep⟩ := hreserves.marked (s.owned.marked (.data pos) h.file)
  have hreleased : ∀ b ∈ (contents hfs img).blocksOf hfs (.data pos),
      ¬HeaderBlock hfs.blockSize b ∧ ∀ i, (contents hfs img).HasFork hfs i → i ≠ .data pos →
        b ∉ (contents hfs img).blocksOf hfs i :=
    fun b hb ↦ ⟨s.owned.not_reserved (.data pos) h.file b hb, fun i hi hne hbi ↦
      s.owned.disjoint i (.data pos) hi h.file hne b hbi hb⟩
  have howned : (contents hfs img').BlocksOwned hfs := by
    refine s.owned.assign (fun i hi hne ↦ Or.inr ⟨h.hasFork_iff.mp hi, ?_⟩)
      (h.blocksOf_data.trans (List.append_nil _)) List.nodup_range' hreserves.free
      (fun b hb ↦ ?_) hreleased (fun b hb hnot ↦ ?_)
    · exact h.blocksOf_of_ne hsystem (h.hasFork_iff.mp hi) hne
    · rw [Contents.Marked, hbitmap]
      exact hset b hb
    · rw [Contents.Marked, hbitmap]
      exact hkeep b hb hnot
  have hfree : (CaribeOS.be32 (contents hfs img').header 48).toNat = free := by
    rw [hhead, be32_congr fun k _ hlt ↦ overlay_of_lt (by omega), hheader.free]
  have hsound := s.of_contents hsize (fun k hk _ hne _ ↦ hkept k hk (by omega)) htree
    h.leavesOrdered howned
  rwa [hfree] at hsound

theorem Accounted.moved (a : Accounted img hfs)
    (hcount : free + needed = hfs.freeBlocks
      + ((contents hfs img).blocksOf hfs (.data pos)).length) :
    Accounted img' { hfs with freeBlocks := free } := by
  have s := a.sound
  refine ⟨s.moved hsize hcontents h hheader hreserves, a.bitmap_size, ?_⟩
  have hbitmap : (contents hfs img').bitmap = bm := by rw [hcontents]
  rw [← hbitmap] at hreserves
  have hcard := hreserves.card_freeBits (s.owned.nodup (.data pos) h.file)
    fun b hb ↦ ⟨s.owned.lt (.data pos) h.file b hb, s.owned.marked (.data pos) h.file b hb⟩
  have hbefore := a.free
  change free = (freeBits hfs (contents hfs img')).card
  omega

end Moved

end Replace

end CaribeOS.HfsScript
