import CaribeOS.Foundation.Moves
import CaribeOS.Boot.Elf

/-!
# What the kernel's segments hold

`elf32_load_and_jump` copies the `PT_LOAD` segments out of the staging buffer one after the other,
each from its first byte on, and clears what follows each in memory. The image may be linked to
the buffer's own addresses; then a segment is copied over the image, and a later segment, or the
rest of the same one, is read from what is there by then.

The loop is a list of moves (`Foundation/Moves`), so `kernel_loaded_iff` can say exactly for which
images every segment arrives: no byte is read from an address that an earlier byte was put to,
unless the two bytes are equal.
-/

namespace CaribeOS

open ByteMemory Moves

/-! ## The loop as a list of moves -/

/-- The move of one byte. -/
abbrev ByteMove := Move UInt32 UInt8

/-- `n` bytes copied from `src` to `dst`. -/
def copyMoves (dst src : UInt32) (n : ℕ) : List ByteMove :=
  (List.range n).map fun k ↦ ⟨dst + .ofNat k, .inl (src + .ofNat k)⟩

/-- `n` bytes from `a` on cleared. -/
def clearMoves (a : UInt32) (n : ℕ) : List ByteMove :=
  (List.range n).map fun k ↦ ⟨a + .ofNat k, .inr 0⟩

/-- The moves of one segment: the bytes of the file, then the zeros. -/
def segmentMoves (img : UInt32) (ph : Elf32Phdr) : List ByteMove :=
  copyMoves ph.vaddr (img + ph.offset) ph.filesz.toNat
    ++ clearMoves (ph.vaddr + ph.filesz) (ph.memsz - ph.filesz).toNat

/-- The `PT_LOAD` headers. -/
def ptLoads (phdrs : List Elf32Phdr) : List Elf32Phdr := phdrs.filter (·.type = 1)

/-- The moves of the whole loop. -/
def imageMoves (img : UInt32) (phdrs : List Elf32Phdr) : List ByteMove :=
  (ptLoads phdrs).flatMap (segmentMoves img)

theorem storeByte_eq_update (m : Mem) (a : UInt32) (v : UInt8) :
    storeByte m a v = Function.update m a v := by
  funext x
  rw [storeByte, Function.update_apply]

theorem run_copyMoves (m : Mem) (dst src : UInt32) (n : ℕ) :
    run m (copyMoves dst src n) = copyForward m dst src n := by
  induction n with
  | zero => rfl
  | succ n ih =>
    rw [copyMoves, List.range_succ, List.map_append, List.map_singleton, run_concat, ← copyMoves,
      ih, copyForward_succ, storeByte_eq_update]
    rfl

theorem run_clearMoves (m : Mem) (a : UInt32) {n : ℕ} (hn : n ≤ 4294967296) :
    run m (clearMoves a n) = writeBytes m a n fun _ ↦ 0 := by
  induction n with
  | zero =>
    funext x
    rfl
  | succ n ih =>
    rw [clearMoves, List.range_succ, List.map_append, List.map_singleton, run_concat,
      ← clearMoves, ih (by omega)]
    funext x
    rw [Move.apply, Function.update_apply]
    by_cases hx : x = a + .ofNat n
    · rw [if_pos hx, hx, writeBytes_add _ _ _ (Nat.lt_succ_self n) (by omega)]
      rfl
    · have hne : (x - a).toNat ≠ n := by
        rintro rfl
        exact hx (add_ofNat_toNat_sub a x).symm
      rw [if_neg hx, writeBytes, writeBytes]
      exact if_congr (by omega) rfl rfl

theorem run_segmentMoves (m : Mem) (img : UInt32) (ph : Elf32Phdr) :
    run m (segmentMoves img ph)
      = writeBytes (copyForward m ph.vaddr (img + ph.offset) ph.filesz.toNat)
          (ph.vaddr + ph.filesz) (ph.memsz - ph.filesz).toNat fun _ ↦ 0 := by
  rw [segmentMoves, run_append, run_copyMoves, run_clearMoves _ _ (UInt32.toNat_lt _).le]

/-- **The loop over the program headers**, when it comes to its end, has made the moves of the
segments, and found the segments in order. -/
theorem loadSegments_run {img size : UInt32} {phs : List Elf32Phdr} {low high : UInt32}
    {r : UInt32 × UInt32} {m m' : Mem} (h : loadSegments img size phs low high m = (.ok r, m')) :
    m' = run m (imageMoves img phs) ∧ ∀ ph ∈ ptLoads phs, ph.filesz ≤ ph.memsz := by
  induction phs generalizing low high m with
  | nil =>
    rw [loadSegments, Prod.mk.injEq] at h
    exact ⟨h.2.symm, fun _ hph ↦ absurd hph List.not_mem_nil⟩
  | cons ph phs ih =>
    rcases loadSegments_cons h with ⟨htype, hrest⟩ | ⟨htype, hle, -, hrest⟩
    · have hskip : ptLoads (ph :: phs) = ptLoads phs :=
        List.filter_cons_of_neg (by rwa [decide_eq_true_eq])
      rw [imageMoves, hskip]
      exact ih hrest
    · have htake : ptLoads (ph :: phs) = ph :: ptLoads phs :=
        List.filter_cons_of_pos (by rwa [decide_eq_true_eq])
      rw [imageMoves, htake, List.flatMap_cons, run_append, run_segmentMoves, List.forall_mem_cons]
      exact ⟨(ih hrest).1, hle, (ih hrest).2⟩

/-! ## Where the moves go -/

theorem add_ofNat_ne {a : UInt32} {i j : ℕ} (hi : i < 4294967296) (hj : j < 4294967296)
    (hne : i ≠ j) : a + .ofNat i ≠ a + .ofNat j := by
  intro h
  have hdist := toNat_add_ofNat_sub a hi
  rw [h, toNat_add_ofNat_sub a hj] at hdist
  exact hne hdist.symm

section Segment

variable {img : UInt32} {ph : Elf32Phdr} (hle : ph.filesz ≤ ph.memsz)
include hle

theorem bss_length : (ph.memsz - ph.filesz).toNat = ph.memsz.toNat - ph.filesz.toNat :=
  UInt32.toNat_sub_of_le _ _ hle

theorem map_dst_segmentMoves : (segmentMoves img ph).map Move.dst
    = (List.range ph.memsz.toNat).map fun k ↦ ph.vaddr + .ofNat k := by
  have hsum : ph.memsz.toNat = ph.filesz.toNat + (ph.memsz - ph.filesz).toNat := by
    rw [bss_length hle, Nat.add_sub_cancel' (UInt32.le_iff_toNat_le.mp hle)]
  rw [hsum, List.range_add, List.map_append, segmentMoves, List.map_append, copyMoves, clearMoves,
    List.map_map, List.map_map, List.map_map]
  congr 1
  refine List.map_congr_left fun k _ ↦ ?_
  have hrest : ph.vaddr + ph.filesz = ph.vaddr + .ofNat ph.filesz.toNat := by
    rw [UInt32.ofNat_toNat]
  exact (congrArg (· + UInt32.ofNat k) hrest).trans (add_ofNat_add _ _ _)

theorem inBlock_of_mem_segmentMoves {mv : ByteMove} (hmv : mv ∈ segmentMoves img ph) :
    InBlock ph.vaddr ph.memsz.toNat mv.dst := by
  have hmem := List.mem_map_of_mem (f := Move.dst) hmv
  rw [map_dst_segmentMoves hle, List.mem_map] at hmem
  obtain ⟨k, hk, hdst⟩ := hmem
  rw [List.mem_range] at hk
  rw [← hdst]
  exact inBlock_add _ hk (hk.trans (UInt32.toNat_lt _))

theorem segmentMoves_dst_ne : (segmentMoves img ph).Pairwise fun p q ↦ p.dst ≠ q.dst := by
  have hpair : ((segmentMoves img ph).map Move.dst).Pairwise (· ≠ ·) := by
    rw [map_dst_segmentMoves hle, List.pairwise_map]
    refine List.Pairwise.imp_of_mem (fun {i j} hi hj hlt ↦ ?_) List.pairwise_lt_range
    rw [List.mem_range] at hi hj
    have hbound := ph.memsz.toNat_lt
    exact add_ofNat_ne (by omega) (by omega) (Nat.ne_of_lt hlt)
  exact List.pairwise_map.mp hpair

end Segment

/-- The segment is in place when each of its moves has put its value there. -/
theorem forall_segmentMoves_iff (img : UInt32) (ph : Elf32Phdr) (m m' : Mem) :
    (∀ mv ∈ segmentMoves img ph, m' mv.dst = mv.value m) ↔
      (∀ k < ph.filesz.toNat, m' (ph.vaddr + .ofNat k) = m (img + ph.offset + .ofNat k)) ∧
        ∀ k < (ph.memsz - ph.filesz).toNat, m' (ph.vaddr + ph.filesz + .ofNat k) = 0 := by
  rw [segmentMoves, List.forall_mem_append, copyMoves, clearMoves, List.forall_mem_map,
    List.forall_mem_map]
  simp only [List.mem_range]
  rfl

theorem imageMoves_dst_ne {img : UInt32} {phs : List Elf32Phdr}
    (hle : ∀ ph ∈ ptLoads phs, ph.filesz ≤ ph.memsz)
    (happart : (ptLoads phs).Pairwise fun p q ↦
      Apart p.vaddr p.memsz.toNat q.vaddr q.memsz.toNat) :
    (imageMoves img phs).Pairwise fun p q ↦ p.dst ≠ q.dst := by
  rw [imageMoves, List.pairwise_flatMap]
  refine ⟨fun ph hph ↦ segmentMoves_dst_ne (hle ph hph), ?_⟩
  refine List.Pairwise.imp_of_mem (fun {ph qh} hph hqh hap p hp q hq heq ↦ ?_) happart
  have hin := inBlock_of_mem_segmentMoves (hle ph hph) hp
  rw [heq] at hin
  exact hap _ hin (inBlock_of_mem_segmentMoves (hle qh hqh) hq)

/-! ## The kernel in memory -/

/-- The segment of `ph` stands in the memory `m'` as it was in the image that `m` held at `img`: the
bytes of the file, then zeros up to `p_memsz`. -/
def SegmentLoaded (img : UInt32) (m m' : Mem) (ph : Elf32Phdr) : Prop :=
  (∀ k < ph.filesz.toNat, m' (ph.vaddr + .ofNat k) = m (img + ph.offset + .ofNat k)) ∧
    ∀ k < (ph.memsz - ph.filesz).toNat, m' (ph.vaddr + ph.filesz + .ofNat k) = 0

/-- A jump comes after the whole loop; what follows the loop writes the booter's memory only. -/
theorem elf32LoadAndJump_run {b : BooterImage} {pack : Mem → UInt32 → CaribeBootArgs}
    {img size hartid dtb initrdBase initrdSize entry : UInt32} {phdrs : List Elf32Phdr}
    {m m' : Mem} {jump : Jump} (hheader : elf32Header img size m = .ok (phdrs, entry))
    (h : elf32LoadAndJump b pack img size hartid dtb initrdBase initrdSize m = (.ok jump, m')) :
    (∀ ph ∈ ptLoads phdrs, ph.filesz ≤ ph.memsz) ∧
      SameOutside b.Has (run m (imageMoves img phdrs)) m' := by
  rw [elf32LoadAndJump, hheader] at h
  dsimp only at h
  rcases hloop : loadSegments img size phdrs 0xffffffff 0 m with ⟨_ | ⟨low, high⟩, ml⟩
  · rw [hloop] at h
    exact absurd (congrArg Prod.fst h) (by simp)
  rw [hloop] at h
  dsimp only at h
  by_cases hnone : low = 0xffffffff ∨ high ≤ low
  · rw [if_pos hnone] at h
    exact absurd (congrArg Prod.fst h) (by simp)
  rw [if_neg hnone] at h
  obtain ⟨rfl, hle⟩ := loadSegments_run hloop
  have hm' := (Prod.mk.injEq _ _ _ _ ▸ h).2
  rw [← hm']
  exact ⟨hle, writeBootArgs_sameOutside _ _ _ _ _ _ _ _ _⟩

/-- **The loaded kernel is the file's kernel** exactly if no byte of a segment is read from an
address to which an earlier byte, of this or of an earlier segment, was put, unless the two are
equal in the image. -/
theorem kernel_loaded_iff {b : BooterImage} {pack : Mem → UInt32 → CaribeBootArgs}
    {img size hartid dtb initrdBase initrdSize entry : UInt32} {phdrs : List Elf32Phdr}
    {m m' : Mem} {jump : Jump} (hheader : elf32Header img size m = .ok (phdrs, entry))
    (h : elf32LoadAndJump b pack img size hartid dtb initrdBase initrdSize m = (.ok jump, m'))
    (happart : (ptLoads phdrs).Pairwise fun p q ↦
      Apart p.vaddr p.memsz.toNat q.vaddr q.memsz.toNat)
    (hbooter : ∀ ph ∈ ptLoads phdrs, ∀ x, InBlock ph.vaddr ph.memsz.toNat x → ¬b.Has x) :
    (∀ ph ∈ ptLoads phdrs, SegmentLoaded img m m' ph) ↔ Unharmed m (imageMoves img phdrs) := by
  obtain ⟨hle, hframe⟩ := elf32LoadAndJump_run hheader h
  rw [← forall_run_iff (imageMoves_dst_ne hle happart), imageMoves]
  simp only [List.forall_mem_flatMap]
  refine forall₂_congr fun ph hph ↦ ?_
  rw [SegmentLoaded, ← forall_segmentMoves_iff, ← imageMoves]
  refine forall₂_congr fun mv hmv ↦ ?_
  rw [hframe _ (hbooter ph hph _ (inBlock_of_mem_segmentMoves (hle ph hph) hmv))]

/-! ### One image in two orders

Four bytes of code are linked to `0x80400000`; four bytes of bss are linked to the place in the
buffer where the code is staged. With the code first, both arrive. With the bss first, the code is
cleared before it is copied. -/

def codePhdr : Elf32Phdr := ⟨1, 116, 0x80400000, 4, 4⟩

def bssPhdr : Elf32Phdr := ⟨1, 116, 0x82000074, 0, 4⟩

/-- The bytes of a program header. -/
def phdrBytes (ph : Elf32Phdr) : List UInt8 :=
  [ph.type, ph.offset, ph.vaddr, ph.vaddr, ph.filesz, ph.memsz, 7, 4].flatMap wordBytes

/-- An image with two program headers and the four bytes of code. -/
def twoSegments (first second : Elf32Phdr) : List UInt8 :=
  [0x7f, 0x45, 0x4c, 0x46, 1, 1] ++ List.replicate 18 0 ++ [0x80400000, 52].flatMap wordBytes
    ++ List.replicate 10 0 ++ [32, 0, 2, 0] ++ List.replicate 6 0
    ++ phdrBytes first ++ phdrBytes second ++ [0x13, 0x05, 0x10, 0x00]

/-- Memory with the image in the staging buffer. -/
def stagedSegments (first second : Elf32Phdr) : Mem :=
  fun x ↦ (twoSegments first second).getD (x - hfsKernelLoadBuffer).toNat 0

/-- The booter starts the image. -/
def startSegments (first second : Elf32Phdr) : Except String Jump × Mem :=
  elf32LoadAndJump booter (fun _ _ ↦ ⟨128, 0x10000000, 0x0c000000, 0x02000000⟩)
    hfsKernelLoadBuffer 120 0 0 0 0 (stagedSegments first second)

theorem elf32Header_codeFirst :
    elf32Header hfsKernelLoadBuffer 120 (stagedSegments codePhdr bssPhdr)
      = .ok ([codePhdr, bssPhdr], 0x80400000) := by decide

theorem elf32Header_bssFirst :
    elf32Header hfsKernelLoadBuffer 120 (stagedSegments bssPhdr codePhdr)
      = .ok ([bssPhdr, codePhdr], 0x80400000) := by decide

theorem apart_code_bss :
    Apart codePhdr.vaddr codePhdr.memsz.toNat bssPhdr.vaddr bssPhdr.memsz.toNat :=
  Apart.of_le (by decide) (by decide)

theorem not_booter_of_segment {ph : Elf32Phdr} (hph : ph = codePhdr ∨ ph = bssPhdr) (x : UInt32)
    (hx : InBlock ph.vaddr ph.memsz.toNat x) : ¬booter.Has x := by
  have hapart : ∀ q : Elf32Phdr, q = codePhdr ∨ q = bssPhdr →
      Apart booter.start (booter.stop - booter.start).toNat q.vaddr q.memsz.toNat := by
    rintro q (rfl | rfl)
    · exact Apart.of_le (by decide) (by decide)
    · exact Apart.of_le (by decide) (by decide)
  exact fun hhas ↦ hapart ph hph x hhas hx

/-- With the code first, the kernel in memory is the kernel of the file. -/
theorem kernel_loaded_iff_codeFirst : ∃ jump m',
    startSegments codePhdr bssPhdr = (.ok jump, m') ∧
      ∀ ph ∈ ptLoads [codePhdr, bssPhdr],
        SegmentLoaded hfsKernelLoadBuffer (stagedSegments codePhdr bssPhdr) m' ph := by
  have hok : (startSegments codePhdr bssPhdr).1.toOption.isSome := by decide
  rcases hrun : startSegments codePhdr bssPhdr with ⟨_ | jump, m'⟩
  · rw [hrun] at hok
    exact absurd hok Bool.false_ne_true
  refine ⟨jump, m', rfl, (kernel_loaded_iff elf32Header_codeFirst hrun ?_ ?_).mpr ?_⟩
  · exact List.pairwise_pair.mpr apart_code_bss
  · exact fun ph hph ↦ not_booter_of_segment (by simpa using List.mem_of_mem_filter hph)
  · decide

/-- With the bss first, the kernel is started with zeros in the place of its code. -/
theorem code_cleared_before_copy : ∃ jump m',
    elf32Header hfsKernelLoadBuffer 120 (stagedSegments bssPhdr codePhdr)
        = .ok ([bssPhdr, codePhdr], 0x80400000) ∧
      startSegments bssPhdr codePhdr = (.ok jump, m') ∧
      ((ptLoads [bssPhdr, codePhdr]).Pairwise fun p q ↦
        Apart p.vaddr p.memsz.toNat q.vaddr q.memsz.toNat) ∧
      (∀ ph ∈ ptLoads [bssPhdr, codePhdr], ∀ x, InBlock ph.vaddr ph.memsz.toNat x →
        ¬booter.Has x) ∧
      ¬SegmentLoaded hfsKernelLoadBuffer (stagedSegments bssPhdr codePhdr) m' codePhdr := by
  have hok : (startSegments bssPhdr codePhdr).1.toOption.isSome := by decide
  have hbyte : (startSegments bssPhdr codePhdr).2 (codePhdr.vaddr + .ofNat 0) = 0 := by
    decide
  rcases hrun : startSegments bssPhdr codePhdr with ⟨_ | jump, m'⟩
  · rw [hrun] at hok
    exact absurd hok Bool.false_ne_true
  rw [hrun] at hbyte
  refine ⟨jump, m', elf32Header_bssFirst, rfl, ?_, ?_, fun hloaded ↦ ?_⟩
  · exact List.pairwise_pair.mpr apart_code_bss.symm
  · exact fun ph hph ↦ not_booter_of_segment
      (by simpa [or_comm] using List.mem_of_mem_filter hph)
  · have hcode := hbyte.symm.trans (hloaded.1 0 (by decide))
    exact absurd hcode (by decide)

end CaribeOS
