import CaribeOS.Boot.Loaded
import CaribeOS.Hfs.Updates

/-!
# From the update to the jump

`update-hfs-kernel.py` writes a kernel to an image, and `caribe_hfsplus_boot` mounts the disk with
the image, reads the kernel into a buffer, moves its segments to their addresses and jumps to it.
`updated_kernel_boots` goes all this way, for a kernel that keeps clear of the booter and the
buffer: after any number of updates, the booter starts the kernel that came last, byte for byte.
-/

namespace CaribeOS

open ByteMemory FileScript HfsScript

/-- A kernel that the booter can start. Its segments overlap neither each other nor the booter nor
the file in its buffer. -/
structure Bootable (b : BooterImage) (payload : Buf) (phdrs : List Elf32Phdr) (entry : UInt32) :
    Prop where
  size_le : payload.size ≤ hfsKernelLoadCap.toNat
  header : elf32Header 0 (.ofNat payload.size) (fun x ↦ payload.byte x.toNat) = .ok (phdrs, entry)
  loadable : ∀ ph ∈ phdrs, ph.type = 1 → ph.Loadable (.ofNat payload.size)
  nonempty : ∃ ph ∈ phdrs, ph.type = 1 ∧ ph.memsz ≠ 0
  apart : (ptLoads phdrs).Pairwise fun p q ↦ Apart p.vaddr p.memsz.toNat q.vaddr q.memsz.toNat
  booter : ∀ ph ∈ ptLoads phdrs, ∀ x, InBlock ph.vaddr ph.memsz.toNat x → ¬b.Has x
  buffer : ∀ ph ∈ ptLoads phdrs, Apart ph.vaddr ph.memsz.toNat hfsKernelLoadBuffer payload.size

/-- The segment of `ph` stands in memory as the file has it. -/
def SegmentOf (payload : Buf) (m : Mem) (ph : Elf32Phdr) : Prop :=
  (∀ k < ph.filesz.toNat, m (ph.vaddr + .ofNat k) = payload.byte (ph.offset.toNat + k)) ∧
    ∀ k < (ph.memsz - ph.filesz).toNat, m (ph.vaddr + ph.filesz + .ofNat k) = 0

section Boot

variable {b : BooterImage} {disk : Disk} {hfs : HfsVolume} {kernelPath : List UInt8} {payload : Buf}
  {phdrs : List Elf32Phdr} {entry : UInt32}

theorem staged_of_delivers
    (h : Delivers disk hfs (if kernelPath = [] then cString "/kernel.elf" else kernelPath) payload)
    (hsize : payload.size ≤ hfsKernelLoadCap.toNat) (initrdPath : List UInt8) (m : Mem) :
    (readKernel b disk hfs kernelPath m).1 = some (.ofNat payload.size) ∧
      ∀ k < payload.size, stagedMem b disk hfs kernelPath initrdPath m
        (hfsKernelLoadBuffer + .ofNat k) = payload.byte k := by
  obtain ⟨m₁, hread, hbytes⟩ := h b.secbuf hfsKernelLoadBuffer hfsKernelLoadCap m hsize
    (b.secbuf_apart (by decide) (by decide))
  have hkernel : readKernel b disk hfs kernelPath m = (some (.ofNat payload.size), m₁) := hread
  refine ⟨by rw [hkernel], fun k hk ↦ ?_⟩
  rw [stagedMem_kernel _ _ _ _ _ _ (hk.trans_le hsize), hkernel]
  exact hbytes k hk

namespace Bootable

variable (h : Bootable b payload phdrs entry)
include h

theorem toNat_size : (UInt32.ofNat payload.size).toNat = payload.size :=
  UInt32.toNat_ofNat_of_lt' (h.size_le.trans_lt (UInt32.toNat_lt _))

theorem segment_loadable {ph : Elf32Phdr} (hph : ph ∈ ptLoads phdrs) :
    ph.Loadable (.ofNat payload.size) :=
  h.loadable ph (List.mem_of_mem_filter hph) (of_decide_eq_true (List.mem_filter.mp hph).2)

/-- Byte `k` of a segment in the buffer is byte `offset + k` of the file. -/
theorem offset_add_lt {ph : Elf32Phdr} (hph : ph ∈ ptLoads phdrs) {k : ℕ}
    (hk : k < ph.filesz.toNat) : ph.offset.toNat + k < payload.size ∧
      hfsKernelLoadBuffer + ph.offset + .ofNat k
        = hfsKernelLoadBuffer + .ofNat (ph.offset.toNat + k) := by
  have hload := h.segment_loadable hph
  have hoffset := UInt32.le_iff_toNat_le.mp hload.offset_le
  have hrest := UInt32.le_iff_toNat_le.mp hload.filesz_le_rest
  rw [UInt32.toNat_sub_of_le _ _ hload.offset_le, h.toNat_size] at hrest
  rw [h.toNat_size] at hoffset
  refine ⟨by omega, ?_⟩
  rw [← add_ofNat_add, UInt32.ofNat_toNat]

/-- No byte of a segment is read from where a byte was put before. -/
theorem unharmed (m : Mem) : Moves.Unharmed m (imageMoves hfsKernelLoadBuffer phdrs) := by
  refine List.pairwise_of_forall_mem_list fun p hp q hq hsource ↦ absurd hsource ?_
  obtain ⟨ph, hph, hp⟩ := List.mem_flatMap.mp hp
  obtain ⟨qh, hqh, hq⟩ := List.mem_flatMap.mp hq
  rcases List.mem_append.mp hq with hq | hq
  · obtain ⟨k, hk, rfl⟩ := List.mem_map.mp hq
    obtain ⟨hlt, haddr⟩ := h.offset_add_lt hqh (List.mem_range.mp hk)
    intro hsource
    have hdst := inBlock_of_mem_segmentMoves (h.segment_loadable hph).filesz_le hp
    rw [← Sum.inl.inj hsource, haddr] at hdst
    have hsize := h.toNat_size ▸ UInt32.toNat_lt (.ofNat payload.size)
    exact h.buffer ph hph _ hdst (inBlock_add _ hlt (hlt.trans hsize))
  · obtain ⟨k, -, rfl⟩ := List.mem_map.mp hq
    exact Sum.inr_ne_inl

theorem boots
    (hdelivers : Delivers disk hfs (if kernelPath = [] then cString "/kernel.elf" else kernelPath)
      payload) (pack : Mem → UInt32 → CaribeBootArgs) (initrdPath : List UInt8)
    (hartid dtb : UInt32) (m : Mem) :
    ∃ jump m', caribeHfsplusBoot b pack disk hfs kernelPath initrdPath hartid dtb m
        = (.ok jump, m') ∧ jump.entry = entry ∧ ∀ ph ∈ ptLoads phdrs, SegmentOf payload m' ph := by
  obtain ⟨hkernel, hstaged⟩ := staged_of_delivers (b := b) hdelivers h.size_le initrdPath m
  have hheader : elf32Header hfsKernelLoadBuffer (.ofNat payload.size)
      (stagedMem b disk hfs kernelPath initrdPath m) = .ok (phdrs, entry) := by
    rw [← h.header]
    refine elf32Header_image fun k hk ↦ ?_
    have hlt := hk.trans (UInt32.toNat_lt _)
    rw [h.toNat_size] at hk
    rw [hstaged k hk, UInt32.zero_add, UInt32.toNat_ofNat_of_lt' hlt]
  obtain ⟨jump, m', hboot, hentry, hframe⟩ :=
    caribeHfsplusBoot_jumps hkernel hheader h.loadable h.nonempty
  obtain ⟨r, m₁, hloop⟩ := loadSegments_ok h.loadable hfsKernelLoadBuffer 0xffffffff 0
    (stagedMem b disk hfs kernelPath initrdPath m)
  rw [hloop] at hframe
  obtain ⟨rfl, hle⟩ := loadSegments_run hloop
  refine ⟨jump, m', hboot, hentry, fun ph hph ↦ ?_⟩
  have hmoved := (Moves.forall_run_iff (imageMoves_dst_ne hle h.apart)).mpr
    (h.unharmed (stagedMem b disk hfs kernelPath initrdPath m))
  have hloaded : SegmentLoaded hfsKernelLoadBuffer (stagedMem b disk hfs kernelPath initrdPath m)
      m' ph := (forall_segmentMoves_iff _ _ _ _).mp fun mv hmv ↦ by
    rw [hframe _ (h.booter ph hph _ (inBlock_of_mem_segmentMoves (hle ph hph) hmv))]
    exact hmoved mv (List.mem_flatMap.mpr ⟨ph, hph, hmv⟩)
  refine ⟨fun k hk ↦ ?_, hloaded.2⟩
  obtain ⟨hlt, haddr⟩ := h.offset_add_lt hph hk
  rw [hloaded.1 k hk, haddr, hstaged _ hlt]

end Bootable

end Boot

/-- **From the update to the jump.** After any number of updates that succeed, the kernel that was
put last to the path of the booter is started: the jump goes to its entry, and all of its segments
stand in memory as the file has them. -/
theorem updated_kernel_boots {img img' payload : Buf} {hfs : HFSPlusImage}
    {log : List (List Char × Buf)} {p : ℕ × ℕ} {disk : Disk} {b : BooterImage}
    {kernelPath : List UInt8} {phdrs : List Elf32Phdr} {entry : UInt32} (u : Usable img hfs)
    (hlog : Proper log) (hrun : Replacements img log img') (hdisk : Holds disk img')
    (hpath : (contents hfs img).walk hfs 2 (pathComponents
      (if kernelPath = [] then cString "/kernel.elf" else kernelPath)) = some p)
    (hlatest : latest hfs img log p = some payload) (hkernel : Bootable b payload phdrs entry) :
    ∃ vol, Mounts disk vol ∧ ∀ pack initrdPath hartid dtb m, ∃ jump m',
      caribeHfsplusBoot b pack disk vol kernelPath initrdPath hartid dtb m = (.ok jump, m') ∧
        jump.entry = entry ∧ ∀ ph ∈ ptLoads phdrs, SegmentOf payload m' ph := by
  obtain ⟨hfs', h⟩ := hrun.tracks u hlog
  obtain ⟨_, v, -⟩ := u.view (holds_diskOf img)
  obtain ⟨vol, v', hmount⟩ := h.usable.view hdisk
  have hdelivers := h.reads v v' hpath
  rw [hlatest] at hdelivers
  exact ⟨vol, hmount, hkernel.boots hdelivers⟩

/-- An image that is its only segment. -/
def smallKernel : Buf := .ofList (kernelImage (kernelMemsz 1))

theorem bootable_smallKernel :
    Bootable booter smallKernel [⟨1, 0, 0x80400000, 84, kernelMemsz 1⟩] 0x80400000 where
  size_le := by decide
  header := by decide
  loadable := List.forall_mem_singleton.mpr fun _ ↦ loadable_kernels (.inl rfl)
  nonempty := ⟨_, List.mem_singleton_self _, rfl, by decide⟩
  apart := List.pairwise_singleton _ _
  booter := List.forall_mem_singleton.mpr fun x hx hhas ↦
    Apart.of_le (by decide) (by decide) x hhas hx
  buffer := List.forall_mem_singleton.mpr (Apart.of_le (by decide) (by decide))

/-- The file `b` is replaced by this kernel, which is then started. -/
theorem updated_kernel_boots_threeFiles : ∃ img' vol jump m',
    Replacements threeFiles [(['/', 'b'], smallKernel)] img' ∧ Mounts (diskOf img') vol ∧
      caribeHfsplusBoot booter (fun _ _ ↦ ⟨128, 0x10000000, 0x0c000000, 0x02000000⟩) (diskOf img')
          vol (pathBytes ['/', 'b']) [] 0 0 (fun _ ↦ 0) = (.ok jump, m') ∧
        jump.entry = 0x80400000 := by
  obtain ⟨alloc, hcall⟩ := exists_of_isOk
    (r := updateImage ['/', 'b'] smallKernel true threeFiles) (by decide +kernel)
  have hrun := Replacements.none.replace hcall
  let kernelPath := pathBytes ['/', 'b']
  have hpath : (contents threeFilesVolume threeFiles).walk threeFilesVolume 2 (pathComponents
      (if kernelPath = [] then cString "/kernel.elf" else kernelPath)) = some (1, 1) := by
    decide +kernel
  obtain ⟨vol, hmount, hboots⟩ := updated_kernel_boots usable_threeFiles (by simp [Proper]; decide)
    hrun (holds_diskOf _) hpath
    (by rw [latest_cons]; exact if_pos hpath) bootable_smallKernel
  obtain ⟨jump, m', hboot, hentry, -⟩ :=
    hboots (fun _ _ ↦ ⟨128, 0x10000000, 0x0c000000, 0x02000000⟩) [] 0 0 fun _ ↦ 0
  exact ⟨_, vol, jump, m', hrun, hmount, hboot, hentry⟩

end CaribeOS
