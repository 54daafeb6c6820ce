import CaribeOS.Boot.MemoryMap
import CaribeOS.Hfs.ReadFile

/-!
# Loading the kernel

`caribe_hfsplus_boot` (`booter/hfsplus_boot.c`) reads the kernel image to `0x82000000` and the
initrd to `0x84000000`; `elf32_load_and_jump` then copies the image's `PT_LOAD` segments to where they are
linked, fills in the boot arguments and jumps.

The addresses of the segments come from the image, and nothing compares them with what is already in
memory: the initrd, the device tree, the booter itself. `handoffIntact_iff` says when all of these
reach the kernel as they should.

The booter's static objects are given by their addresses (`BooterImage`). Its stack is not part of
the model: the header and the program headers, which the source copies there, are values here.
-/

namespace CaribeOS

open ByteMemory

/-! ## The booter's own memory -/

def hfsKernelLoadBuffer : UInt32 := 0x82000000

def hfsKernelLoadCap : UInt32 := 32 * 1024 * 1024

def hfsInitrdLoadBuffer : UInt32 := 0x84000000

def hfsInitrdLoadCap : UInt32 := 16 * 1024 * 1024

/-- `n` bytes at `a` inside the block from `lo` to `hi`. -/
def Within (lo hi a : UInt32) (n : ℕ) : Prop := (a - lo).toNat + n ≤ (hi - lo).toNat
  deriving Decidable

/-- The booter in memory: `__caribebootx_start`, `__caribebootx_end` and the static objects of
`hfsplus_boot.c` between them. It ends below the load buffers. -/
structure BooterImage where
  start : UInt32
  stop : UInt32
  secbuf : UInt32
  xnuCmdline : UInt32
  xnuBootArgs : UInt32
  xnuMemoryMap : UInt32
  start_le : start ≤ stop
  stop_le : stop ≤ hfsKernelLoadBuffer
  secbuf_in : Within start stop secbuf 8192
  cmdline_in : Within start stop xnuCmdline 256
  args_in : Within start stop xnuBootArgs 128
  map_in : Within start stop xnuMemoryMap 640
  secbuf_cmdline : Apart secbuf 8192 xnuCmdline 256
  args_cmdline : Apart xnuBootArgs 128 xnuCmdline 256
  map_cmdline : Apart xnuMemoryMap 640 xnuCmdline 256

/-- The bytes of the booter. -/
def BooterImage.Has (b : BooterImage) : UInt32 → Prop := InBlock b.start (b.stop - b.start).toNat

/-! ## `elf32_load_and_jump` as it stands in the source -/

/-- The fields of `Elf32_Phdr` that are used. -/
structure Elf32Phdr where
  type : UInt32
  offset : UInt32
  vaddr : UInt32
  filesz : UInt32
  memsz : UInt32
deriving DecidableEq

def elf32Phdr (m : Mem) (a : UInt32) : Elf32Phdr where
  type := loadWord m a
  offset := loadWord m (a + 4)
  vaddr := loadWord m (a + 8)
  filesz := loadWord m (a + 16)
  memsz := loadWord m (a + 20)

/-- The checks of the header: the program headers and the entry point, or the error printed. -/
def elf32Header (img size : UInt32) (m : Mem) : Except String (List Elf32Phdr × UInt32) :=
  if size < 52 then .error "[ELF] imagen demasiado chica"
  else if loadWord m img ≠ 0x464c457f ∨ m (img + 4) ≠ 1 ∨ m (img + 5) ≠ 1 then
    .error "[ELF] formato no soportado"
  else if loadHalf m (img + 42) ≠ 32 then .error "[ELF] phentsize inesperado"
  else
    let phnum := loadHalf m (img + 44)
    let phoff := loadWord m (img + 28)
    if phnum = 0 ∨ 16 < phnum then .error "[ELF] demasiados program headers"
    else if size < phoff ∨ size - phoff < phnum.toUInt32 * 32 then
      .error "[ELF] program headers fuera de rango"
    else
      .ok ((List.range phnum.toNat).map fun i ↦ elf32Phdr m (img + phoff + .ofNat (32 * i)),
        loadWord m (img + 24))

/-- The loop over the program headers: `load_low` and `load_high`, or the error printed. The
segments before a bad one have been written by then. -/
def loadSegments (img size : UInt32) :
    List Elf32Phdr → UInt32 → UInt32 → Mem → Except String (UInt32 × UInt32) × Mem
  | [], loadLow, loadHigh, m => (.ok (loadLow, loadHigh), m)
  | ph :: rest, loadLow, loadHigh, m =>
    if ph.type ≠ 1 then loadSegments img size rest loadLow loadHigh m
    else if ph.memsz < ph.filesz ∨ size < ph.offset ∨ size - ph.offset < ph.filesz then
      (.error "[ELF] segmento invalido", m)
    else
      let segEnd := ph.vaddr + ph.memsz
      if segEnd < ph.vaddr then (.error "[ELF] segmento envuelve direccion", m)
      else
        let m := copyForward m ph.vaddr (img + ph.offset) ph.filesz.toNat
        let m := writeBytes m (ph.vaddr + ph.filesz) (ph.memsz - ph.filesz).toNat fun _ ↦ 0
        loadSegments img size rest (if ph.vaddr < loadLow then ph.vaddr else loadLow)
          (if loadHigh < segEnd then segEnd else loadHigh) m

/-- What `caribe_pack_boot_args` finds in the device tree, as far as it is used here. -/
structure CaribeBootArgs where
  memMb : UInt32
  uartBase : UInt32
  plicBase : UInt32
  aclintBase : UInt32

/-- `riscv32_caribebootx_args_t`, without the fields that stay zero. -/
structure XnuBootArgs where
  magic : UInt32
  version : UInt32
  hartid : UInt32
  dtbPaddr : UInt32
  dtbSize : UInt32
  memBase : UInt32
  memSize : UInt32
  uartBase : UInt32
  plicBase : UInt32
  aclintBase : UInt32
  kernelBase : UInt32
  kernelSize : UInt32
  initrdBase : UInt32
  initrdSize : UInt32
  commandLinePaddr : UInt32
  commandLineSize : UInt32
  memoryMapPaddr : UInt32
  memoryMapCount : UInt32
  memoryMapDescSize : UInt32

/-- The 32 words of the structure; `flags` and `reserved` are zero. -/
def XnuBootArgs.words (args : XnuBootArgs) : List UInt32 :=
  [args.magic, args.version, 0, args.hartid, args.dtbPaddr, args.dtbSize, args.memBase,
    args.memSize, args.uartBase, args.plicBase, args.aclintBase, args.kernelBase, args.kernelSize,
    args.initrdBase, args.initrdSize, args.commandLinePaddr, args.commandLineSize,
    args.memoryMapPaddr, args.memoryMapCount, args.memoryMapDescSize] ++ List.replicate 12 0

def XnuBootArgs.byte (args : XnuBootArgs) (k : ℕ) : UInt8 :=
  byteOf (args.words.getD (k / 4) 0) (k % 4)

/-- Byte `k` of an entry of the memory map. -/
def XnuMemoryRange.byte (r : XnuMemoryRange) (k : ℕ) : UInt8 :=
  let words := [r.type, r.pad] ++ [r.physicalStart, r.virtualStart, r.numberOfPages,
    r.attr].flatMap fun v : UInt64 ↦ [v.toUInt32, (v >>> 32).toUInt32]
  byteOf (words.getD (k / 4) 0) (k % 4)

/-- Byte `k` of the array `xnu_memory_map`, which is cleared before it is filled. -/
def mapByte (map : List XnuMemoryRange) (k : ℕ) : UInt8 :=
  match map[k / 40]? with
  | none => 0
  | some r => r.byte (k % 40)

/-- `slen`, with a bound on the length. -/
def slen (m : Mem) (a : UInt32) : ℕ → UInt32
  | 0 => 0
  | fuel + 1 => if m a = 0 then 0 else 1 + slen m (a + 1) fuel

/-- The command line when none was given. -/
def defaultCmdline : List UInt8 := cString "console=ttyS0 -v"

/-- Put the default in place of an empty command line. -/
def defaultIfEmpty (a : UInt32) (m : Mem) : Mem :=
  if m a = 0 then writeBytes m a 17 fun k ↦ defaultCmdline.getD k 0 else m

/-- The jump to the kernel: the three arguments it gets, and what they point to. -/
structure Jump where
  entry : UInt32
  hartid : UInt32
  dtb : UInt32
  bootArgs : UInt32
  args : XnuBootArgs

section Code

variable (b : BooterImage) (pack : Mem → UInt32 → CaribeBootArgs)

/-- What follows the loop: the boot arguments, the command line and the memory map are written to
the booter's memory. -/
def writeBootArgs (hartid dtb initrdBase initrdSize loadLow loadHigh : UInt32) (m : Mem) :
    XnuBootArgs × Mem :=
  let ba := pack m dtb
  let m := writeBytes m b.xnuBootArgs 128 fun _ ↦ 0
  let m := defaultIfEmpty b.xnuCmdline m
  let memBase := 0x80000000
  let memSize := ba.memMb * 1024 * 1024
  let dtbSize := if dtb ≠ 0 then rdbe32 m (dtb + 4) else 0
  let map := xnuBuildMemoryMap memBase memSize
    ⟨b.start, b.stop, loadLow, loadHigh - loadLow, dtb, dtbSize, initrdBase, initrdSize⟩
  let args : XnuBootArgs :=
    { magic := riscv32CaribebootxMagic
      version := riscv32CaribebootxVersion
      hartid := hartid
      dtbPaddr := dtb
      dtbSize := dtbSize
      memBase := memBase
      memSize := memSize
      uartBase := ba.uartBase
      plicBase := ba.plicBase
      aclintBase := ba.aclintBase
      kernelBase := loadLow
      kernelSize := loadHigh - loadLow
      initrdBase := initrdBase
      initrdSize := initrdSize
      commandLinePaddr := b.xnuCmdline
      commandLineSize := slen m b.xnuCmdline 4294967296 + 1
      memoryMapPaddr := if map.length ≠ 0 then b.xnuMemoryMap else 0
      memoryMapCount := .ofNat map.length
      memoryMapDescSize := if map.length ≠ 0 then 40 else 0 }
  (args, writeBytes (writeBytes m b.xnuMemoryMap 640 (mapByte map)) b.xnuBootArgs 128 args.byte)

/-- `elf32_load_and_jump` up to the jump, or the error it prints before it returns `-1`. -/
def elf32LoadAndJump (img size hartid dtb initrdBase initrdSize : UInt32) (m : Mem) :
    Except String Jump × Mem :=
  match elf32Header img size m with
  | .error e => (.error e, m)
  | .ok (phdrs, entry) =>
    match loadSegments img size phdrs 0xffffffff 0 m with
    | (.error e, m) => (.error e, m)
    | (.ok (loadLow, loadHigh), m) =>
      if loadLow = 0xffffffff ∨ loadHigh ≤ loadLow then (.error "[ELF] sin segmentos LOAD", m)
      else
        let (args, m) := writeBootArgs b pack hartid dtb initrdBase initrdSize loadLow loadHigh m
        (.ok ⟨entry, hartid, dtb, b.xnuBootArgs, args⟩, m)

/-! ## `caribe_hfsplus_boot`, once the volume is mounted and the paths are known -/

variable (disk : Disk) (hfs : HfsVolume) (kernelPath initrdPath : List UInt8)

/-- Read the kernel. -/
def readKernel (m : Mem) : Option UInt32 × Mem :=
  hfsplusReadFile disk hfs b.secbuf (if kernelPath = [] then cString "/kernel.elf" else kernelPath)
    hfsKernelLoadBuffer hfsKernelLoadCap m

/-- The path of the initrd. -/
def initrdFile : List UInt8 := if initrdPath = [] then cString "/initrd.img" else initrdPath

/-- Read the initrd, which may be missing: its size, and memory. -/
def readInitrd (m : Mem) : UInt32 × Mem :=
  match hfsplusReadFile disk hfs b.secbuf (initrdFile initrdPath) hfsInitrdLoadBuffer
    hfsInitrdLoadCap m with
  | (none, m) => (0, m)
  | (some initrdSize, m) => (initrdSize, m)

/-- `caribe_hfsplus_boot`: the jump, or the value returned. -/
def caribeHfsplusBoot (hartid dtb : UInt32) (m : Mem) : Except ℤ Jump × Mem :=
  match readKernel b disk hfs kernelPath m with
  | (none, m) => (.error (-3), m)
  | (some kernelSize, m) =>
    let (initrdSize, m) := readInitrd b disk hfs initrdPath m
    match elf32LoadAndJump b pack hfsKernelLoadBuffer kernelSize hartid dtb
      (if initrdSize ≠ 0 then hfsInitrdLoadBuffer else 0) initrdSize m with
    | (.error _, m) => (.error (-4), m)
    | (.ok jump, m) => (.ok jump, m)

end Code

/-! ## Where the loader writes -/

variable {a x img high low size : UInt32} {n i : ℕ} {ph : Elf32Phdr} {m m' : Mem}
  {phs : List Elf32Phdr}

theorem Within.inBlock {lo hi : UInt32} (h : Within lo hi a n) (hx : InBlock a n x) :
    InBlock lo (hi - lo).toNat x := by
  obtain ⟨k, hk, rfl⟩ := hx.exists_eq_add
  have hlt : (hi - lo).toNat < 4294967296 := UInt32.toNat_lt _
  rw [Within] at h
  have ha : a = lo + .ofNat (a - lo).toNat := (add_ofNat_toNat_sub lo a).symm
  rw [ha, add_ofNat_add]
  exact inBlock_add lo (by omega) (by omega)

namespace BooterImage

variable (b : BooterImage)

/-- The booter ends where the load buffers begin. -/
theorem not_has_of_le (hx : hfsKernelLoadBuffer ≤ x) : ¬b.Has x := by
  have hle := UInt32.le_iff_toNat_le.mp b.start_le
  have hstop := UInt32.le_iff_toNat_le.mp b.stop_le
  have hlt := b.stop.toNat_lt
  rw [UInt32.le_iff_toNat_le] at hx
  rw [Has, UInt32.toNat_sub_of_le _ _ b.start_le, inBlock_iff (by omega)]
  omega

theorem buffer_le (ha : hfsKernelLoadBuffer ≤ a) (hn : a.toNat + n ≤ 4294967296)
    (hx : InBlock a n x) : hfsKernelLoadBuffer ≤ x := by
  rw [inBlock_iff hn] at hx
  rw [UInt32.le_iff_toNat_le] at ha ⊢
  omega

theorem secbuf_apart (ha : hfsKernelLoadBuffer ≤ a) (hn : a.toNat + n ≤ 4294967296) :
    Apart a n b.secbuf 8192 :=
  fun _ hx hsec ↦ b.not_has_of_le (buffer_le ha hn hx) (b.secbuf_in.inBlock hsec)

end BooterImage

theorem sameOutside_segment (hle : ph.filesz ≤ ph.memsz) (m : Mem) :
    SameOutside (InBlock ph.vaddr ph.memsz.toNat) m
      (writeBytes (copyForward m ph.vaddr (img + ph.offset) ph.filesz.toNat) (ph.vaddr + ph.filesz)
        (ph.memsz - ph.filesz).toNat fun _ ↦ 0) := by
  have hlt := ph.memsz.toNat_lt
  have hle' := UInt32.le_iff_toNat_le.mp hle
  have hcopy : SameOutside (InBlock ph.vaddr ph.memsz.toNat) m
      (copyForward m ph.vaddr (img + ph.offset) ph.filesz.toNat) :=
    (sameOutside_copyForward _ _ _ _).mono fun x hx ↦ hx.mono hle'
  refine hcopy.trans ((sameOutside_writeBytes _ _ _ _).mono fun x hx ↦ ?_)
  have hrest : ph.vaddr + ph.filesz = ph.vaddr + .ofNat ph.filesz.toNat := by
    rw [UInt32.ofNat_toNat]
  rw [UInt32.toNat_sub_of_le _ _ hle, hrest] at hx
  exact hx.of_add (by omega) (by omega)

/-- The address `x` lies between the lowest and the highest byte of the `PT_LOAD` segments. -/
def InHull (phs : List Elf32Phdr) (x : UInt32) : Prop :=
  (∃ ph ∈ phs, ph.type = 1 ∧ ph.vaddr.toNat ≤ x.toNat) ∧
    ∃ ph ∈ phs, ph.type = 1 ∧ x.toNat < ph.vaddr.toNat + ph.memsz.toNat

variable {r : UInt32 × UInt32} {entry : UInt32} {phdrs : List Elf32Phdr}

/-- A round of the loop that does not stop it: the header is skipped, or its segment is loaded. -/
theorem loadSegments_cons (h : loadSegments img size (ph :: phs) low high m = (.ok r, m')) :
    (ph.type ≠ 1 ∧ loadSegments img size phs low high m = (.ok r, m')) ∨
    (ph.type = 1 ∧ ph.filesz ≤ ph.memsz ∧
      (ph.vaddr + ph.memsz).toNat = ph.vaddr.toNat + ph.memsz.toNat ∧
      loadSegments img size phs (if ph.vaddr < low then ph.vaddr else low)
        (if high < ph.vaddr + ph.memsz then ph.vaddr + ph.memsz else high)
        (writeBytes (copyForward m ph.vaddr (img + ph.offset) ph.filesz.toNat)
          (ph.vaddr + ph.filesz) (ph.memsz - ph.filesz).toNat fun _ ↦ 0) = (.ok r, m')) := by
  rw [loadSegments] at h
  by_cases htype : ph.type ≠ 1
  · rw [if_pos htype] at h
    exact .inl ⟨htype, h⟩
  rw [if_neg htype] at h
  by_cases hbad : ph.memsz < ph.filesz ∨ size < ph.offset ∨ size - ph.offset < ph.filesz
  · rw [if_pos hbad] at h
    exact absurd (congrArg Prod.fst h) (by simp)
  rw [if_neg hbad] at h
  by_cases hwrap : ph.vaddr + ph.memsz < ph.vaddr
  · rw [if_pos hwrap] at h
    exact absurd (congrArg Prod.fst h) (by simp)
  rw [if_neg hwrap] at h
  refine .inr ⟨not_not.mp htype, UInt32.not_lt.mp (not_or.mp hbad).1, ?_, h⟩
  rw [UInt32.lt_iff_toNat_lt, UInt32.toNat_add] at hwrap
  rw [UInt32.toNat_add]
  have hmemsz := ph.memsz.toNat_lt
  omega

/-- **The loop over the program headers** writes between the lowest and the highest byte of the
segments. -/
theorem loadSegments_sameOutside (h : loadSegments img size phs low high m = (.ok r, m')) :
    SameOutside (InHull phs) m m' := by
  induction phs generalizing low high m with
  | nil =>
    rw [loadSegments, Prod.mk.injEq] at h
    rw [h.2]
    exact SameOutside.refl _ _
  | cons ph phs ih =>
    have hlater : ∀ x, InHull phs x → InHull (ph :: phs) x := fun x hx ↦
      ⟨hx.1.imp fun _ h ↦ h.imp_left (List.mem_cons_of_mem _),
        hx.2.imp fun _ h ↦ h.imp_left (List.mem_cons_of_mem _)⟩
    rcases loadSegments_cons h with ⟨-, hrest⟩ | ⟨htype, hfile, hend, hrest⟩
    · exact (ih hrest).mono hlater
    · refine ((sameOutside_segment hfile m).mono fun x hx ↦ ?_).trans ((ih hrest).mono hlater)
      have hlt := (ph.vaddr + ph.memsz).toNat_lt
      rw [inBlock_iff (by omega)] at hx
      exact ⟨⟨ph, List.mem_cons_self, htype, hx.1⟩, ⟨ph, List.mem_cons_self, htype, hx.2⟩⟩

theorem loadSegments_range {low' high' : UInt32}
    (h : loadSegments img size phs low high m = (.ok (low', high'), m')) (x : ℕ) :
    (low'.toNat ≤ x ↔ low.toNat ≤ x ∨ ∃ ph ∈ phs, ph.type = 1 ∧ ph.vaddr.toNat ≤ x) ∧
    (x < high'.toNat ↔
      x < high.toNat ∨ ∃ ph ∈ phs, ph.type = 1 ∧ x < ph.vaddr.toNat + ph.memsz.toNat) := by
  induction phs generalizing low high m with
  | nil =>
    obtain ⟨⟨rfl, rfl⟩, -⟩ : (low = low' ∧ high = high') ∧ m = m' := by
      simpa only [loadSegments, Prod.mk.injEq, Except.ok.injEq] using h
    simp only [List.not_mem_nil, false_and, exists_false, or_false, and_self]
  | cons ph phs ih =>
    simp only [List.exists_mem_cons_iff]
    rcases loadSegments_cons h with ⟨htype, hrest⟩ | ⟨htype, -, hend, hrest⟩
    · simp only [htype, false_and, false_or]
      exact ih hrest
    · obtain ⟨hlow, hhigh⟩ := ih hrest
      rw [hlow, hhigh]
      simp only [htype, true_and, ← or_assoc, UInt32.lt_iff_toNat_lt, hend]
      constructor
      · apply or_congr_left
        split_ifs <;> omega
      · apply or_congr_left
        split_ifs <;> omega

theorem loadSegments_inBlock (h : loadSegments img size phs 0xffffffff 0 m = (.ok (low, high), m'))
    (hle : low ≤ high) (x : UInt32) : InBlock low (high - low).toNat x ↔ InHull phs x := by
  obtain ⟨hlow, hhigh⟩ := loadSegments_range h x.toNat
  have hmax : (0xffffffff : UInt32).toNat = 4294967295 := rfl
  have hlt := high.toNat_lt
  have hle' := UInt32.le_iff_toNat_le.mp hle
  rw [UInt32.toNat_zero] at hhigh
  rw [UInt32.toNat_sub_of_le _ _ hle, inBlock_iff (by omega), Nat.add_sub_cancel' hle', InHull,
    hlow, hhigh, or_iff_right (Nat.not_lt_zero _)]
  refine and_congr_left fun hend ↦ or_iff_right ?_
  have := hhigh.mpr (.inr hend)
  omega

/-- A program header that does not stop the loop. -/
structure Elf32Phdr.Loadable (size : UInt32) (ph : Elf32Phdr) : Prop where
  filesz_le : ph.filesz ≤ ph.memsz
  offset_le : ph.offset ≤ size
  filesz_le_rest : ph.filesz ≤ size - ph.offset
  no_wrap : ph.vaddr ≤ ph.vaddr + ph.memsz

/-- The loop comes to its end if the `PT_LOAD` headers allow it. -/
theorem loadSegments_ok (hphs : ∀ ph ∈ phs, ph.type = 1 → ph.Loadable size) (img low high : UInt32)
    (m : Mem) : ∃ r m', loadSegments img size phs low high m = (.ok r, m') := by
  induction phs generalizing low high m with
  | nil => exact ⟨_, _, rfl⟩
  | cons ph phs ih =>
    have hrest := ih fun q hq ↦ hphs q (List.mem_cons_of_mem _ hq)
    rw [loadSegments]
    by_cases htype : ph.type ≠ 1
    · rw [if_pos htype]
      exact hrest _ _ _
    · obtain ⟨hfile, hoff, hlen, hwrap⟩ := hphs ph List.mem_cons_self (not_not.mp htype)
      have hgood : ¬(ph.memsz < ph.filesz ∨ size < ph.offset ∨ size - ph.offset < ph.filesz) := by
        rw [not_or, not_or, UInt32.not_lt, UInt32.not_lt, UInt32.not_lt]
        exact ⟨hfile, hoff, hlen⟩
      rw [if_neg htype, if_neg hgood]
      rw [if_neg (UInt32.not_lt.mpr hwrap)]
      exact hrest _ _ _

theorem loadSegments_singleton (htype : ph.type = 1) (hph : ph.Loadable size) (m : Mem) :
    (loadSegments img size [ph] low high m).2
      = writeBytes (copyForward m ph.vaddr (img + ph.offset) ph.filesz.toNat)
          (ph.vaddr + ph.filesz) (ph.memsz - ph.filesz).toNat fun _ ↦ 0 := by
  have hphs : ∀ q ∈ [ph], q.type = 1 → q.Loadable size :=
    fun q hq _ ↦ by rwa [List.mem_singleton.mp hq]
  obtain ⟨r, m', hloop⟩ := loadSegments_ok hphs img low high m
  rcases loadSegments_cons hloop with ⟨hne, -⟩ | ⟨-, -, -, hrest⟩
  · exact absurd htype hne
  · rw [loadSegments, Prod.mk.injEq] at hrest
    rw [hloop, hrest.2]

section Image

variable {img img' : UInt32} {n : ℕ} {m m' : Mem}
  (h : ∀ k < n, m (img + .ofNat k) = m' (img' + .ofNat k))
include h

theorem elf32Phdr_image {o : ℕ} (ho : o + 24 ≤ n) :
    elf32Phdr m (img + .ofNat o) = elf32Phdr m' (img' + .ofNat o) := by
  have hword : ∀ j, j + 4 ≤ 24 →
      loadWord m (img + .ofNat o + .ofNat j) = loadWord m' (img' + .ofNat o + .ofNat j) := by
    intro j hj
    rw [add_ofNat_add, add_ofNat_add]
    exact loadWord_image h (by omega)
  rw [elf32Phdr, elf32Phdr, Elf32Phdr.mk.injEq]
  exact ⟨loadWord_image h (by omega), hword 4 (by decide), hword 8 (by decide),
    hword 16 (by decide), hword 20 (by decide)⟩

end Image

/-- The header is read from the image: `size` bytes, wherever they stand. -/
theorem elf32Header_image {img' : UInt32}
    (h : ∀ k < size.toNat, m (img + .ofNat k) = m' (img' + .ofNat k)) :
    elf32Header img size m = elf32Header img' size m' := by
  rw [elf32Header, elf32Header]
  by_cases hsmall : size < 52
  · rw [if_pos hsmall, if_pos hsmall]
  have hsize : 52 ≤ size.toNat := UInt32.le_iff_toNat_le.mp (UInt32.not_lt.mp hsmall)
  have hmagic : loadWord m img = loadWord m' img' := by
    have hfirst := loadWord_image h (o := 0) (by omega)
    rwa [add_ofNat_zero, add_ofNat_zero] at hfirst
  have hclass : m (img + 4) = m' (img' + 4) := h 4 (by omega)
  have hdata : m (img + 5) = m' (img' + 5) := h 5 (by omega)
  have hentsize : loadHalf m (img + 42) = loadHalf m' (img' + 42) :=
    loadHalf_image h (o := 42) (by omega)
  have hnum : loadHalf m (img + 44) = loadHalf m' (img' + 44) :=
    loadHalf_image h (o := 44) (by omega)
  have hphoff : loadWord m (img + 28) = loadWord m' (img' + 28) :=
    loadWord_image h (o := 28) (by omega)
  have hentry : loadWord m (img + 24) = loadWord m' (img' + 24) :=
    loadWord_image h (o := 24) (by omega)
  rw [if_neg hsmall, if_neg hsmall, hmagic, hclass, hdata, hentsize, hnum, hphoff, hentry]
  dsimp only
  generalize loadHalf m' (img' + 44) = phnum
  generalize loadWord m' (img' + 28) = phoff
  by_cases hrange : size < phoff ∨ size - phoff < phnum.toUInt32 * 32
  · rw [if_pos hrange, if_pos hrange]
  by_cases hmany : phnum = 0 ∨ 16 < phnum
  · rw [if_pos hmany, if_pos hmany]
  rw [not_or, UInt32.not_lt, UInt32.not_lt] at hrange
  rw [not_or, UInt16.not_lt, UInt16.le_iff_toNat_le] at hmany
  -- the program headers have been found to be inside the image
  have hphdr : ∀ i ∈ List.range phnum.toNat, elf32Phdr m (img + phoff + .ofNat (32 * i))
      = elf32Phdr m' (img' + phoff + .ofNat (32 * i)) := by
    intro i hi
    rw [List.mem_range] at hi
    have hrest := UInt32.le_iff_toNat_le.mp hrange.2
    have hbound : phnum.toNat ≤ 16 := hmany.2
    have hmul : (phnum.toUInt32 * 32).toNat = phnum.toNat * 32 := by
      exact Nat.mod_eq_of_lt (by change phnum.toNat * 32 < _; omega)
    rw [UInt32.toNat_sub_of_le _ _ hrange.1, hmul] at hrest
    rw [← UInt32.ofNat_toNat (x := phoff), add_ofNat_add, add_ofNat_add]
    exact elf32Phdr_image h (by omega)
  rw [List.map_congr_left hphdr]

theorem defaultIfEmpty_congr (h : ∀ y, InBlock a 256 y → m y = m' y) (hx : InBlock a 256 x) :
    defaultIfEmpty a m x = defaultIfEmpty a m' x := by
  have hfirst : InBlock a 256 a := by
    rw [InBlock, UInt32.sub_self]
    decide
  rw [defaultIfEmpty, defaultIfEmpty, h a hfirst]
  split_ifs
  · exact writeBytes_congr _ _ (h x hx)
  · exact h x hx

section WriteBootArgs

variable (b : BooterImage) (pack : Mem → UInt32 → CaribeBootArgs)
  (hartid dtb initrdBase initrdSize low high : UInt32) (m : Mem)

theorem writeBootArgs_sameOutside :
    SameOutside b.Has m (writeBootArgs b pack hartid dtb initrdBase initrdSize low high m).2 := by
  have hargs : ∀ m f, SameOutside b.Has m (writeBytes m b.xnuBootArgs 128 f) := fun m f ↦
    (sameOutside_writeBytes _ _ _ _).mono fun x hx ↦ b.args_in.inBlock hx
  have hmap : ∀ m f, SameOutside b.Has m (writeBytes m b.xnuMemoryMap 640 f) := fun m f ↦
    (sameOutside_writeBytes _ _ _ _).mono fun x hx ↦ b.map_in.inBlock hx
  have hcmd : ∀ m, SameOutside b.Has m (defaultIfEmpty b.xnuCmdline m) := by
    intro m
    rw [defaultIfEmpty]
    split_ifs
    · exact (sameOutside_writeBytes _ _ _ _).mono fun x hx ↦
        b.cmdline_in.inBlock (hx.mono (by decide))
    · exact SameOutside.refl _ _
  exact ((hargs _ _).trans (hcmd _)).trans ((hmap _ _).trans (hargs _ _))

/-- The command line after that: the default in place of an empty one, and otherwise as it was. -/
theorem writeBootArgs_cmdline (hx : InBlock b.xnuCmdline 256 x) :
    (writeBootArgs b pack hartid dtb initrdBase initrdSize low high m).2 x
      = defaultIfEmpty b.xnuCmdline m x := by
  have hargs : ∀ {m f y}, InBlock b.xnuCmdline 256 y → writeBytes m b.xnuBootArgs 128 f y = m y :=
    fun hy ↦ sameOutside_writeBytes _ _ _ _ _ (b.args_cmdline.symm _ hy)
  have hmap : ∀ {m f y}, InBlock b.xnuCmdline 256 y → writeBytes m b.xnuMemoryMap 640 f y = m y :=
    fun hy ↦ sameOutside_writeBytes _ _ _ _ _ (b.map_cmdline.symm _ hy)
  exact (hargs hx).trans ((hmap hx).trans (defaultIfEmpty_congr (fun y hy ↦ hargs hy) hx))

theorem writeBootArgs_args {k : ℕ} (hk : k < 128) :
    (writeBootArgs b pack hartid dtb initrdBase initrdSize low high m).2 (b.xnuBootArgs + .ofNat k)
      = (writeBootArgs b pack hartid dtb initrdBase initrdSize low high m).1.byte k :=
  writeBytes_add _ _ _ hk (by omega)

end WriteBootArgs

/-! ## The handoff -/

section Handoff

variable (b : BooterImage) (pack : Mem → UInt32 → CaribeBootArgs) (disk : Disk) (hfs : HfsVolume)
  (kernelPath initrdPath : List UInt8)

/-- Memory when both files have been read. -/
def stagedMem (m : Mem) : Mem :=
  (readInitrd b disk hfs initrdPath (readKernel b disk hfs kernelPath m).2).2

/-- The initrd file. -/
def initrdFork (m : Mem) : Option ForkMeta :=
  (hfsplusFindFile disk hfs b.secbuf (initrdFile initrdPath).length 2 (initrdFile initrdPath)
    (readKernel b disk hfs kernelPath m).2).1

/-- The length of the device tree, from its header. -/
def dtbTotalSize (m : Mem) (dtb : UInt32) : ℕ := if dtb ≠ 0 then (rdbe32 m (dtb + 4)).toNat else 0

/-- The range of the loaded kernel has no byte of the initrd, the device tree or the booter. -/
structure KernelApart (m : Mem) (jump : Jump) : Prop where
  initrd : Apart jump.args.kernelBase jump.args.kernelSize.toNat hfsInitrdLoadBuffer
    jump.args.initrdSize.toNat
  dtb : Apart jump.args.kernelBase jump.args.kernelSize.toNat jump.dtb (dtbTotalSize m jump.dtb)
  booter : ∀ x, InBlock jump.args.kernelBase jump.args.kernelSize.toNat x → ¬b.Has x

/-- All that the kernel is handed is as it should be, in the memory `m'` at the jump: `m` is the
memory when the boot began. -/
structure HandoffIntact (m : Mem) (jump : Jump) (m' : Mem) : Prop
    extends KernelApart b m jump where
  initrd_bytes : jump.args.initrdSize ≠ 0 →
    ∃ fk, initrdFork b disk hfs kernelPath initrdPath m = some fk ∧
      jump.args.initrdSize.toNat = fk.size.toNat ∧
      ∀ k < fk.size.toNat, forkByte disk hfs.bs.toNat (List.ofFn fk.ext) k
        = some (m' (hfsInitrdLoadBuffer + .ofNat k))
  dtb_bytes : ∀ k < dtbTotalSize m jump.dtb, m' (jump.dtb + .ofNat k) = m (jump.dtb + .ofNat k)
  args_bytes : ∀ k < 128, m' (jump.bootArgs + .ofNat k) = jump.args.byte k
  cmdline_bytes : ∀ k < 256, m' (b.xnuCmdline + .ofNat k)
    = defaultIfEmpty b.xnuCmdline m (b.xnuCmdline + .ofNat k)

/-- The program headers of the kernel file. -/
def kernelPhdrs (m : Mem) : List Elf32Phdr :=
  match (readKernel b disk hfs kernelPath m).1 with
  | none => []
  | some kernelSize =>
    match elf32Header hfsKernelLoadBuffer kernelSize
      (stagedMem b disk hfs kernelPath initrdPath m) with
    | .error _ => []
    | .ok (phdrs, _) => phdrs

/-- The size of the initrd file, `0` without one. -/
def initrdSize (m : Mem) : UInt32 :=
  (readInitrd b disk hfs initrdPath (readKernel b disk hfs kernelPath m).2).1

/-- What the files must be like: no byte of the initrd, the device tree and the booter lies between
the kernel's segments, and reading the files leaves the device tree alone. -/
structure FilesApart (m : Mem) (dtb : UInt32) : Prop where
  initrd_apart : ∀ x, InHull (kernelPhdrs b disk hfs kernelPath initrdPath m) x →
    ¬InBlock hfsInitrdLoadBuffer (initrdSize b disk hfs kernelPath initrdPath m).toNat x
  dtb_apart : ∀ x, InHull (kernelPhdrs b disk hfs kernelPath initrdPath m) x →
    ¬InBlock dtb (dtbTotalSize m dtb) x
  booter_apart : ∀ x, InHull (kernelPhdrs b disk hfs kernelPath initrdPath m) x → ¬b.Has x
  dtb_staged : ∀ k < dtbTotalSize m dtb,
    stagedMem b disk hfs kernelPath initrdPath m (dtb + .ofNat k) = m (dtb + .ofNat k)

variable {b pack disk hfs kernelPath initrdPath} {hartid dtb : UInt32} {m m' : Mem} {jump : Jump}

/-- **What leads to the jump**: the segments are loaded into the memory that the two reads leave,
and the boot arguments are written last. -/
theorem caribeHfsplusBoot_ok
    (h : caribeHfsplusBoot b pack disk hfs kernelPath initrdPath hartid dtb m = (.ok jump, m')) :
    jump.dtb = dtb ∧ jump.bootArgs = b.xnuBootArgs ∧
      jump.args.initrdSize = initrdSize b disk hfs kernelPath initrdPath m ∧
      (∀ x, InBlock jump.args.kernelBase jump.args.kernelSize.toNat x ↔
        InHull (kernelPhdrs b disk hfs kernelPath initrdPath m) x) ∧
      ∃ m₁ initrdBase low high,
        SameOutside (InHull (kernelPhdrs b disk hfs kernelPath initrdPath m))
          (stagedMem b disk hfs kernelPath initrdPath m) m₁ ∧
        jump.args
          = (writeBootArgs b pack hartid dtb initrdBase jump.args.initrdSize low high m₁).1 ∧
        m' = (writeBootArgs b pack hartid dtb initrdBase jump.args.initrdSize low high m₁).2 := by
  rw [caribeHfsplusBoot] at h
  rw [initrdSize, kernelPhdrs, stagedMem]
  generalize readKernel b disk hfs kernelPath m = kernel at h ⊢
  obtain ⟨_ | kernelSize, mk⟩ := kernel
  · exact absurd (congrArg Prod.fst h) (by simp)
  dsimp only at h ⊢
  generalize readInitrd b disk hfs initrdPath mk = initrd at h ⊢
  obtain ⟨initrdSize, mi⟩ := initrd
  rw [elf32LoadAndJump] at h
  cases hheader : elf32Header hfsKernelLoadBuffer kernelSize mi with
  | error e =>
    rw [hheader] at h
    exact absurd (congrArg Prod.fst h) (by simp)
  | ok result =>
    obtain ⟨phdrs, entry⟩ := result
    rw [hheader] at h
    dsimp only at h
    cases hload : loadSegments hfsKernelLoadBuffer kernelSize phdrs 0xffffffff 0 mi with
    | mk result m₁ =>
      rw [hload] at h
      cases result with
      | error e => exact absurd (congrArg Prod.fst h) (by simp)
      | ok range =>
        obtain ⟨low, high⟩ := range
        dsimp only at h
        by_cases hnone : low = 0xffffffff ∨ high ≤ low
        · rw [if_pos hnone] at h
          exact absurd (congrArg Prod.fst h) (by simp)
        · rw [if_neg hnone] at h
          obtain ⟨hjump, rfl⟩ := Prod.mk.inj h
          obtain rfl := Except.ok.inj hjump
          have hle : low ≤ high := UInt32.le_of_lt (UInt32.not_le.mp (not_or.mp hnone).2)
          exact ⟨rfl, rfl, rfl, loadSegments_inBlock hload hle, m₁, _, low, high,
            loadSegments_sameOutside hload, rfl, rfl⟩

theorem kernelPhdrs_eq (hkernel : (readKernel b disk hfs kernelPath m).1 = some size)
    (hheader : elf32Header hfsKernelLoadBuffer size (stagedMem b disk hfs kernelPath initrdPath m)
      = .ok (phdrs, entry)) : kernelPhdrs b disk hfs kernelPath initrdPath m = phdrs := by
  rw [kernelPhdrs, hkernel]
  dsimp only
  rw [hheader]

/-- **When the boot reaches the jump**: the kernel can be read, its header is in order, and the
`PT_LOAD` segments are not all empty. The memory is then that of the loop, outside the booter. -/
theorem caribeHfsplusBoot_jumps (hkernel : (readKernel b disk hfs kernelPath m).1 = some size)
    (hheader : elf32Header hfsKernelLoadBuffer size (stagedMem b disk hfs kernelPath initrdPath m)
      = .ok (phdrs, entry)) (hphdrs : ∀ ph ∈ phdrs, ph.type = 1 → ph.Loadable size)
    (hload : ∃ ph ∈ phdrs, ph.type = 1 ∧ ph.memsz ≠ 0) :
    ∃ jump m', caribeHfsplusBoot b pack disk hfs kernelPath initrdPath hartid dtb m
        = (.ok jump, m') ∧ jump.entry = entry ∧
      SameOutside b.Has (loadSegments hfsKernelLoadBuffer size phdrs 0xffffffff 0
        (stagedMem b disk hfs kernelPath initrdPath m)).2 m' := by
  obtain ⟨⟨low, high⟩, m₁, hloop⟩ := loadSegments_ok hphdrs hfsKernelLoadBuffer
    0xffffffff 0 (stagedMem b disk hfs kernelPath initrdPath m)
  -- a segment that is not empty lies between `load_low` and `load_high`
  have hsome : ¬(low = 0xffffffff ∨ high ≤ low) := by
    obtain ⟨ph, hph, htype, hmemsz⟩ := hload
    have hlow := (loadSegments_range hloop ph.vaddr.toNat).1.mpr (.inr ⟨ph, hph, htype, le_rfl⟩)
    have hpos : 0 < ph.memsz.toNat := by
      rw [ne_eq, ← UInt32.toNat_inj, UInt32.toNat_zero] at hmemsz
      omega
    have hhigh := (loadSegments_range hloop ph.vaddr.toNat).2.mpr (.inr ⟨ph, hph, htype, by omega⟩)
    have hlt := high.toNat_lt
    rw [not_or, ← UInt32.toNat_inj, UInt32.le_iff_toNat_le,
      show (0xffffffff : UInt32).toNat = 4294967295 from rfl]
    omega
  rw [hloop, caribeHfsplusBoot]
  rw [stagedMem] at hheader hloop
  generalize readKernel b disk hfs kernelPath m = kernel at hkernel hheader hloop ⊢
  obtain ⟨kernelSize, mk⟩ := kernel
  obtain rfl : kernelSize = some size := hkernel
  dsimp only at hheader hloop ⊢
  rw [elf32LoadAndJump, hheader]
  dsimp only
  rw [hloop]
  dsimp only
  rw [if_neg hsome]
  exact ⟨_, _, rfl, rfl, writeBootArgs_sameOutside b pack _ _ _ _ _ _ _⟩

section StagedMem

variable (b : BooterImage) (disk : Disk) (hfs : HfsVolume) (kernelPath initrdPath : List UInt8)
  (m : Mem)

/-- Memory is what the read of the initrd leaves, whether or not there is one. -/
theorem stagedMem_eq :
    stagedMem b disk hfs kernelPath initrdPath m
      = (hfsplusReadFile disk hfs b.secbuf (initrdFile initrdPath) hfsInitrdLoadBuffer
          hfsInitrdLoadCap (readKernel b disk hfs kernelPath m).2).2 := by
  rw [stagedMem, readInitrd]
  split <;> simp_all only

theorem stagedMem_sameOutside :
    SameOutside (ReadRegion b.secbuf hfsKernelLoadBuffer 0x3000000) m
      (stagedMem b disk hfs kernelPath initrdPath m) := by
  have hkernel : SameOutside (ReadRegion b.secbuf hfsKernelLoadBuffer 0x3000000) m
      (readKernel b disk hfs kernelPath m).2 :=
    (hfsplusReadFile_sameOutside _ _ _ _ _ _ _).mono
      fun x hx ↦ hx.imp_right fun h ↦ h.mono (by decide)
  refine hkernel.trans ?_
  have hbuffer : ∀ x, InBlock hfsInitrdLoadBuffer hfsInitrdLoadCap.toNat x →
      InBlock hfsKernelLoadBuffer 0x3000000 x := by
    intro x hx
    have haddr : hfsInitrdLoadBuffer = hfsKernelLoadBuffer + .ofNat 0x2000000 := by decide
    rw [haddr] at hx
    exact hx.of_add (by decide) (by decide)
  have hinitrd := (hfsplusReadFile_sameOutside disk hfs b.secbuf (initrdFile initrdPath)
    hfsInitrdLoadBuffer hfsInitrdLoadCap (readKernel b disk hfs kernelPath m).2).mono
    fun x hx ↦ hx.imp_right (hbuffer x)
  rw [stagedMem_eq]
  exact hinitrd

/-- The initrd is read past the buffer of the kernel. -/
theorem stagedMem_kernel {k : ℕ} (hk : k < hfsKernelLoadCap.toNat) :
    stagedMem b disk hfs kernelPath initrdPath m (hfsKernelLoadBuffer + .ofNat k)
      = (readKernel b disk hfs kernelPath m).2 (hfsKernelLoadBuffer + .ofNat k) := by
  have hin := inBlock_add hfsKernelLoadBuffer hk (hk.trans (UInt32.toNat_lt _))
  have hnot : ¬ReadRegion b.secbuf hfsInitrdLoadBuffer hfsInitrdLoadCap.toNat
      (hfsKernelLoadBuffer + .ofNat k) :=
    not_or.mpr ⟨b.secbuf_apart (by decide) (by decide) _ hin,
      Apart.of_le (by decide) (by decide) _ hin⟩
  rw [stagedMem_eq]
  exact hfsplusReadFile_sameOutside disk hfs b.secbuf _ _ _ _ _ hnot

end StagedMem

theorem stagedMem_initrd (hs : hfs.SaneBlockSize)
    (hfit : ∀ fk, initrdFork b disk hfs kernelPath initrdPath m = some fk →
      SectorsFit hfs (List.ofFn fk.ext) 0 fk.size.toNat)
    (hsize : initrdSize b disk hfs kernelPath initrdPath m ≠ 0) :
    ∃ fk, initrdFork b disk hfs kernelPath initrdPath m = some fk ∧
      (initrdSize b disk hfs kernelPath initrdPath m).toNat = fk.size.toNat ∧
      fk.size.toNat ≤ hfsInitrdLoadCap.toNat ∧
      ∀ k < fk.size.toNat, forkByte disk hfs.bs.toNat (List.ofFn fk.ext) k
        = some (stagedMem b disk hfs kernelPath initrdPath m (hfsInitrdLoadBuffer + .ofNat k)) := by
  cases hread : hfsplusReadFile disk hfs b.secbuf (initrdFile initrdPath) hfsInitrdLoadBuffer
      hfsInitrdLoadCap (readKernel b disk hfs kernelPath m).2 with
  | mk result mi =>
    rw [initrdSize, readInitrd, hread] at hsize ⊢
    rw [stagedMem, readInitrd, hread]
    cases result with
    | none => exact absurd rfl hsize
    | some size =>
      obtain ⟨fk, hfk, heq, hcap, hbytes⟩ :=
        hfsplusReadFile_bytes hs (b.secbuf_apart (by decide) (by decide)) hread
      refine ⟨fk, hfk, heq, by omega, ?_⟩
      rw [← heq]
      exact hbytes (by rw [heq]; exact hfit fk hfk)

/-- **The handoff** is intact exactly when no byte of the initrd, the device tree and the booter
lies between the kernel's segments, and the device tree has survived the reading of the files. The
volume has sector numbers of 32 bits, and the device tree is not inside the booter. -/
theorem handoffIntact_iff (hs : hfs.SaneBlockSize)
    (hfit : ∀ fk, initrdFork b disk hfs kernelPath initrdPath m = some fk →
      SectorsFit hfs (List.ofFn fk.ext) 0 fk.size.toNat)
    (hdtb : ∀ x, InBlock dtb (dtbTotalSize m dtb) x → ¬b.Has x)
    (h : caribeHfsplusBoot b pack disk hfs kernelPath initrdPath hartid dtb m = (.ok jump, m')) :
    HandoffIntact b disk hfs kernelPath initrdPath m jump m' ↔
      FilesApart b disk hfs kernelPath initrdPath m dtb := by
  obtain ⟨rfl, hptr, hinitrd, hrange, m₁, base, low, high, hload, hargs, hfinal⟩ :=
    caribeHfsplusBoot_ok h
  have hdtblt : dtbTotalSize m jump.dtb ≤ 4294967296 := by
    rw [dtbTotalSize]
    split_ifs
    · exact (UInt32.toNat_lt _).le
    · exact Nat.zero_le _
  -- outside the kernel and the booter, the memory at the jump is that after the reads
  have hsame : ∀ x, ¬InHull (kernelPhdrs b disk hfs kernelPath initrdPath m) x → ¬b.Has x →
      m' x = stagedMem b disk hfs kernelPath initrdPath m x := by
    intro x hkernel hbooter
    rw [hfinal, writeBootArgs_sameOutside b pack _ _ _ _ _ _ _ x hbooter, hload x hkernel]
  constructor
  · intro hintact
    refine ⟨fun x hx ↦ ?_, fun x hx ↦ ?_, fun x hx ↦ ?_, fun k hk ↦ ?_⟩
    · rw [← hinitrd]
      exact hintact.initrd x ((hrange x).mpr hx)
    · exact hintact.dtb x ((hrange x).mpr hx)
    · exact hintact.booter x ((hrange x).mpr hx)
    · have hin := inBlock_add jump.dtb hk (by omega)
      rw [← hintact.dtb_bytes k hk]
      exact (hsame _ (fun hx ↦ hintact.dtb _ ((hrange _).mpr hx) hin) (hdtb _ hin)).symm
  · intro hfiles
    refine ⟨⟨fun x hx ↦ ?_, fun x hx ↦ ?_, fun x hx ↦ ?_⟩, fun hne ↦ ?_, fun k hk ↦ ?_,
      fun k hk ↦ ?_, fun k hk ↦ ?_⟩
    · rw [hinitrd]
      exact hfiles.initrd_apart x ((hrange x).mp hx)
    · exact hfiles.dtb_apart x ((hrange x).mp hx)
    · exact hfiles.booter_apart x ((hrange x).mp hx)
    · rw [hinitrd] at hne ⊢
      obtain ⟨fk, hfk, heq, hcap, hbytes⟩ := stagedMem_initrd hs hfit hne
      have hcap' : fk.size.toNat ≤ 16777216 := hcap
      refine ⟨fk, hfk, heq, fun k hk ↦ ?_⟩
      have hin := inBlock_add hfsInitrdLoadBuffer hk (by omega)
      have htop : hfsInitrdLoadBuffer.toNat + fk.size.toNat ≤ 4294967296 := by
        rw [show hfsInitrdLoadBuffer.toNat = 2214592512 from rfl]
        omega
      rw [hbytes k hk, hsame]
      · exact fun hx ↦ hfiles.initrd_apart _ hx (by rwa [heq])
      · exact b.not_has_of_le (BooterImage.buffer_le (by decide) htop hin)
    · have hin := inBlock_add jump.dtb hk (by omega)
      rw [hsame _ (fun hx ↦ hfiles.dtb_apart _ hx hin) (hdtb _ hin)]
      exact hfiles.dtb_staged k hk
    · rw [hptr, hfinal, writeBootArgs_args b pack _ _ _ _ _ _ _ hk, ← hargs]
    · rw [hfinal, writeBootArgs_cmdline b pack _ _ _ _ _ _ _ (inBlock_add _ hk (by omega))]
      refine defaultIfEmpty_congr (fun x hx ↦ ?_) (inBlock_add _ hk (by omega))
      -- the command line is in the booter, but not in the staging buffer
      have hbooter : b.Has x := b.cmdline_in.inBlock hx
      rw [hload x fun hkernel ↦ hfiles.booter_apart x hkernel hbooter]
      refine stagedMem_sameOutside b disk hfs kernelPath initrdPath m x ?_
      rintro (hsec | hbuffer)
      · exact b.secbuf_cmdline x hsec hx
      · exact b.not_has_of_le (BooterImage.buffer_le (UInt32.le_refl _) (by decide) hbuffer) hbooter

end Handoff

/-! ### A volume with two kernels

The files `b` and `d` are images with one segment at `0x80400000`; in memory it has 4 KiB for `b`,
and for `d` it ends 4 KiB behind the beginning of the initrd. The initrd is `c`. -/

/-- A file record of the leaf: where it is, its name, and the size and the block of the file. -/
def leafRecord (o : ℕ) (name size block : UInt8) : List (ℕ × UInt8) :=
  [(o + 1, 8), (o + 5, 2), (o + 7, 1), (o + 9, name), (o + 11, 2), (o + 105, size),
    (o + 117, block), (o + 121, 1)]

/-- The bytes of the leaf that are not zero: the folder `a`, the three files and the offsets. -/
def kernelsLeaf : List (ℕ × UInt8) :=
  [(8, 255), (11, 4), (15, 8), (19, 2), (21, 1), (23, 97), (25, 1), (35, 16)]
    ++ leafRecord 112 98 84 20 ++ leafRecord 370 99 4 30 ++ leafRecord 628 100 84 21
    ++ [(1014, 3), (1015, 118), (1016, 2), (1017, 116), (1018, 1), (1019, 114), (1021, 112),
      (1023, 14)]

/-- An image with one segment at `0x80400000`. -/
def kernelImage (memsz : UInt32) : List UInt8 :=
  [0x7f, 0x45, 0x4c, 0x46, 1, 1] ++ List.replicate 18 0 ++ [0x80400000, 52].flatMap wordBytes
    ++ List.replicate 10 0 ++ [32, 0, 1, 0] ++ List.replicate 6 0
    ++ [1, 0, 0x80400000, 0x80400000, 84, memsz, 7, 4096].flatMap wordBytes

/-- The size of the segment in memory, for the file of record `i`. -/
def kernelMemsz (i : ℕ) : UInt32 := if i = 1 then 0x1000 else 0x3c01000

def kernelsDisk : Disk where
  bytes x :=
    if x < 81920 then (kernelsLeaf.lookup (x - 41984)).getD 0
    else if x < 86016 then (kernelImage (kernelMemsz 1)).getD (x - 81920) 0
    else if x < 122880 then (kernelImage (kernelMemsz 3)).getD (x - 86016) 0
    else [1, 2, 3, 4].getD (x - 122880) 0
  ok _ _ := true

def kernels : HfsVolume where
  blockSize := 4096
  totalBlocks := 64
  catalogNodeSize := 1024
  firstLeafNode := 1
  lastLeafNode := 1
  totalCatalogNodes := 4
  catalog := ⟨4096, fun
    | 0 => ⟨10, 1⟩
    | _ => ⟨0, 0⟩⟩

/-- The name of the file of record `i`. -/
def fileName (i : ℕ) : List UInt8 := [.ofNat (97 + i)]

theorem fileName_ne_nil (i : ℕ) : fileName i ≠ [] := List.cons_ne_nil _ _

theorem numRecords_kernels : numRecords (nodeBytes kernelsDisk kernels 1) = 4 := by
  decide

theorem leafLayout_kernels : LeafLayout (nodeBytes kernelsDisk kernels 1) 1024 where
  table := by decide
  offset := by
    rw [numRecords_kernels]
    decide
  record := by
    rw [numRecords_kernels]
    intro i hi
    interval_cases i <;> constructor <;> decide
  even := by decide
  free_le := by decide
  free := by
    decide

theorem catalogLayout_kernels : CatalogLayout kernelsDisk kernels where
  blockSize := by decide
  nodeSize := ⟨10, by decide, by decide⟩
  nodeSize_le := by decide
  size := by decide
  inside := by decide
  sectors x p hp := by
    have hext : List.ofFn kernels.catalog.ext = ⟨10, 1⟩ :: List.replicate 7 ⟨0, 0⟩ := by decide
    rw [hext] at hp
    simp only [forkBlock, List.replicate_succ, List.replicate_zero, UInt32.reduceToNat,
      Nat.not_lt_zero, if_false] at hp
    split_ifs at hp with hx
    rw [Option.some_inj] at hp
    rw [show kernels.sectorsPerBlock.toNat = 8 by decide]
    omega
  leaf node hfirst hlast _ := by
    obtain rfl : node = 1 := le_antisymm hlast hfirst
    exact leafLayout_kernels

theorem visited_kernels : visited kernelsDisk kernels = [(1, 3), (1, 2), (1, 1)] := by
  decide

theorem matches_kernels : ∀ i < 4, ∀ j < 4, 1 ≤ i → 1 ≤ j →
    (FileMatches 2 (fileName i) (nodeBytes kernelsDisk kernels 1)
      (offsetAt kernelsDisk kernels (1, j)) ↔ j = i) := by
  decide

theorem hfsplusFindFile_kernels (hpos : 1 ≤ i) (hi : i < 4) (secbuf : UInt32) (m : Mem) :
    (hfsplusFindFile kernelsDisk kernels secbuf 1 2 (fileName i) m).1
      = some (forkAt kernelsDisk kernels (1, i)) := by
  have hascii : ∀ i < 4, UInt8.ofNat (97 + i) ≠ 0 ∧ UInt8.ofNat (97 + i) ≠ 47 := by decide
  have hmatch := fun j hj ↦ matches_kernels i hi j hj hpos
  refine hfsplusFindFile_single (fileName_ne_nil _)
    (by rw [fileName, List.length_singleton]; decide)
    (fun h ↦ (hascii i hi).2 (List.mem_singleton.mp h).symm) 0 2 ?_
  rw [catalogScanChild_eq catalogLayout_kernels
    (fun x hx ↦ by rw [List.mem_singleton.mp hx]; exact (hascii i hi).1), visited_kernels]
  simp only [List.findSome?_cons, fileAt, hmatch 1 (by decide) (by decide),
    hmatch 2 (by decide) (by decide), hmatch 3 (by decide) (by decide)]
  interval_cases i <;> rfl

theorem size_kernels : ∀ i < 4, 1 ≤ i →
    (forkAt kernelsDisk kernels (1, i)).size = if i = 2 then 4 else 84 := by
  decide

theorem forkBlock_kernels : ∀ i < 4, 1 ≤ i →
    forkBlock (List.ofFn (forkAt kernelsDisk kernels (1, i)).ext) 0
      = some ([7, 20, 30, 21].getD i 0) := by
  decide

theorem forkByte_kernels : ∀ i < 4, i = 1 ∨ i = 3 → ∀ k < 84,
    forkByte kernelsDisk 4096 (List.ofFn (forkAt kernelsDisk kernels (1, i)).ext) k
      = some ((kernelImage (kernelMemsz i)).getD k 0) := by
  decide

theorem saneBlockSize_kernels : kernels.SaneBlockSize := catalogLayout_kernels.sane

theorem div_bs_kernels {x : ℕ} (hpos : 1 ≤ i) (hi : i < 4)
    (hx : x < (forkAt kernelsDisk kernels (1, i)).size.toNat) : x / kernels.bs.toNat = 0 := by
  have hbs : kernels.bs.toNat = 4096 := by decide
  rw [size_kernels i hi hpos] at hx
  rw [hbs]
  split_ifs at hx
  · have : x < 4 := hx
    omega
  · have : x < 84 := hx
    omega

theorem blockOk_kernels {x : ℕ} (hpos : 1 ≤ i) (hi : i < 4)
    (hx : x < (forkAt kernelsDisk kernels (1, i)).size.toNat) :
    BlockOk kernelsDisk kernels (List.ofFn (forkAt kernelsDisk kernels (1, i)).ext)
      (x / kernels.bs.toNat) := by
  rw [div_bs_kernels hpos hi hx]
  exact ⟨_, forkBlock_kernels i hi hpos, rfl⟩

theorem sectorsFit_kernels (hpos : 1 ≤ i) (hi : i < 4) :
    SectorsFit kernels (List.ofFn (forkAt kernelsDisk kernels (1, i)).ext) 0
      (forkAt kernelsDisk kernels (1, i)).size.toNat := by
  intro x _ hx p hp
  rw [div_bs_kernels hpos hi (by omega), forkBlock_kernels i hi hpos, Option.some_inj] at hp
  have hblocks : ∀ i < 4, [7, 20, 30, 21].getD i 0 < 64 := by decide
  have hspb : kernels.sectorsPerBlock.toNat = 8 := by decide
  have hlt := hblocks i hi
  rw [hspb]
  omega

/-- A booter of 256 KiB, as it is linked. -/
def booter : BooterImage where
  start := 0x80200000
  stop := 0x80240000
  secbuf := 0x80210000
  xnuCmdline := 0x80220000
  xnuBootArgs := 0x80221000
  xnuMemoryMap := 0x80222000
  start_le := by decide
  stop_le := by decide
  secbuf_in := by decide
  cmdline_in := by decide
  args_in := by decide
  map_in := by decide
  secbuf_cmdline := Apart.of_le (by decide) (by decide)
  args_cmdline := (Apart.of_le (by decide) (by decide)).symm
  map_cmdline := (Apart.of_le (by decide) (by decide)).symm

theorem hfsplusReadFile_kernels (hpos : 1 ≤ i) (hi : i < 4) (dst cap : UInt32)
    (hdst : hfsKernelLoadBuffer ≤ dst) (htop : dst.toNat + cap.toNat ≤ 4294967296)
    (hcap : 84 ≤ cap.toNat) (m : Mem) :
    ∃ m', hfsplusReadFile kernelsDisk kernels booter.secbuf (fileName i) dst cap m
        = (some (forkAt kernelsDisk kernels (1, i)).size.toUInt32, m') ∧
      ∀ k < (forkAt kernelsDisk kernels (1, i)).size.toNat,
        forkByte kernelsDisk 4096 (List.ofFn (forkAt kernelsDisk kernels (1, i)).ext) k
          = some (m' (dst + .ofNat k)) := by
  have hfind := hfsplusFindFile_kernels hpos hi booter.secbuf m
  have hsize : 0 < (forkAt kernelsDisk kernels (1, i)).size.toNat ∧
      (forkAt kernelsDisk kernels (1, i)).size.toNat ≤ 84 := by
    rw [size_kernels i hi hpos]
    split_ifs <;> decide
  have hread : (hfsplusReadFile kernelsDisk kernels booter.secbuf (fileName i) dst cap m).1
      = some (forkAt kernelsDisk kernels (1, i)).size.toUInt32 :=
    hfsplusReadFile_fst saneBlockSize_kernels _ hfind hsize.1 (by omega)
      fun x hx ↦ blockOk_kernels hpos hi hx
  cases hrun : hfsplusReadFile kernelsDisk kernels booter.secbuf (fileName i) dst cap m with
  | mk result m' =>
    rw [hrun] at hread
    obtain rfl : result = some (forkAt kernelsDisk kernels (1, i)).size.toUInt32 := hread
    obtain ⟨fk, hfk, heq, -, hbytes⟩ := hfsplusReadFile_bytes saneBlockSize_kernels
      (booter.secbuf_apart hdst htop) hrun
    obtain rfl : forkAt kernelsDisk kernels (1, i) = fk := Option.some_inj.mp (hfind.symm.trans hfk)
    rw [heq] at hbytes
    exact ⟨m', rfl, hbytes (sectorsFit_kernels hpos hi)⟩

def imageMem (memsz : UInt32) : Mem := fun x ↦ (kernelImage memsz).getD x.toNat 0

/-- Memory before the boot: a device tree of 256 bytes at `0x87e00000`. -/
def dtbMem : Mem := fun x ↦ if x = 0x87e00006 then 1 else 0

/-- What is known once `b` or `d` has been read as the kernel, and `c` as the initrd. -/
theorem staged_kernels (hi : i = 1 ∨ i = 3) :
    (readKernel booter kernelsDisk kernels (fileName i) dtbMem).1 = some 84 ∧
      initrdSize booter kernelsDisk kernels (fileName i) (fileName 2) dtbMem = 4 ∧
      elf32Header hfsKernelLoadBuffer 84
          (stagedMem booter kernelsDisk kernels (fileName i) (fileName 2) dtbMem)
        = .ok ([⟨1, 0, 0x80400000, 84, kernelMemsz i⟩], 0x80400000) := by
  have hlt : 1 ≤ i ∧ i < 4 := by omega
  have hsize : (forkAt kernelsDisk kernels (1, i)).size = 84 := by
    rw [size_kernels i hlt.2 hlt.1, if_neg (by omega)]
  obtain ⟨mk, hkernel, hbytes⟩ := hfsplusReadFile_kernels hlt.1 hlt.2 hfsKernelLoadBuffer
    hfsKernelLoadCap (UInt32.le_refl _) (by decide) (by decide) dtbMem
  obtain ⟨mi, hinitrd, -⟩ := hfsplusReadFile_kernels (i := 2) (by decide) (by decide)
    hfsInitrdLoadBuffer hfsInitrdLoadCap (by decide) (by decide) (by decide) mk
  have hread : readKernel booter kernelsDisk kernels (fileName i) dtbMem = (some 84, mk) := by
    rw [readKernel, if_neg (fileName_ne_nil _), hkernel, hsize]
    rfl
  have hreadi : readInitrd booter kernelsDisk kernels (fileName 2) mk = (4, mi) := by
    rw [readInitrd, initrdFile, if_neg (fileName_ne_nil _), hinitrd]
    rfl
  -- the bytes of the image are still there when the initrd has been read
  have himage : ∀ k < (84 : UInt32).toNat,
      stagedMem booter kernelsDisk kernels (fileName i) (fileName 2) dtbMem
        (hfsKernelLoadBuffer + .ofNat k) = imageMem (kernelMemsz i) (0 + .ofNat k) := by
    intro k hk
    have hk84 : k < 84 := hk
    have hbyte := hbytes k (by rw [hsize]; exact hk)
    rw [forkByte_kernels i hlt.2 hi k hk84, Option.some_inj] at hbyte
    rw [stagedMem_kernel _ _ _ _ _ _ (hk84.trans (by decide)), hread, imageMem, UInt32.zero_add,
      toNat_ofNat_lt (by omega)]
    exact hbyte.symm
  rw [initrdSize, hread, hreadi]
  refine ⟨rfl, rfl, ?_⟩
  rw [elf32Header_image himage]
  rcases hi with rfl | rfl <;> decide

theorem inHull_singleton (htype : ph.type = 1) (x : UInt32) :
    InHull [ph] x ↔ ph.vaddr.toNat ≤ x.toNat ∧ x.toNat < ph.vaddr.toNat + ph.memsz.toNat := by
  simp only [InHull, List.mem_singleton, exists_eq_left, htype, true_and]

theorem kernelPhdrs_kernels (hi : i = 1 ∨ i = 3) :
    kernelPhdrs booter kernelsDisk kernels (fileName i) (fileName 2) dtbMem
      = [⟨1, 0, 0x80400000, 84, kernelMemsz i⟩] := by
  obtain ⟨hkernel, -, hheader⟩ := staged_kernels hi
  exact kernelPhdrs_eq hkernel hheader

theorem loadable_kernels (hi : i = 1 ∨ i = 3) :
    Elf32Phdr.Loadable 84 ⟨1, 0, 0x80400000, 84, kernelMemsz i⟩ := by
  rcases hi with rfl | rfl
  · exact ⟨by decide, by decide, by decide, by decide⟩
  · exact ⟨by decide, by decide, by decide, by decide⟩

theorem caribeHfsplusBoot_kernels (hi : i = 1 ∨ i = 3) :
    ∃ jump m', caribeHfsplusBoot booter (fun _ _ ↦ ⟨128, 0x10000000, 0x0c000000, 0x02000000⟩)
        kernelsDisk kernels (fileName i) (fileName 2) 0 0x87e00000 dtbMem = (.ok jump, m') ∧
      SameOutside booter.Has (loadSegments hfsKernelLoadBuffer 84
        [⟨1, 0, 0x80400000, 84, kernelMemsz i⟩] 0xffffffff 0
        (stagedMem booter kernelsDisk kernels (fileName i) (fileName 2) dtbMem)).2 m' := by
  obtain ⟨hkernel, -, hheader⟩ := staged_kernels hi
  have hmemsz : kernelMemsz i ≠ 0 := by
    rcases hi with rfl | rfl <;> decide
  obtain ⟨jump, m', hboot, -, hsame⟩ := caribeHfsplusBoot_jumps hkernel hheader
    (List.forall_mem_singleton.mpr fun _ ↦ loadable_kernels hi)
    ⟨_, List.mem_singleton_self _, rfl, hmemsz⟩
  exact ⟨jump, m', hboot, hsame⟩

theorem dtbTotalSize_dtbMem : dtbTotalSize dtbMem 0x87e00000 = 256 := by decide

theorem initrdFork_kernels (kernelPath : List UInt8) (m : Mem) :
    initrdFork booter kernelsDisk kernels kernelPath (fileName 2) m
      = some (forkAt kernelsDisk kernels (1, 2)) := by
  rw [initrdFork, initrdFile, if_neg (fileName_ne_nil _)]
  exact hfsplusFindFile_kernels (by decide) (by decide) _ _

/-- The small kernel is handed all it needs. -/
theorem handoffIntact_iff_small : ∃ jump m',
    caribeHfsplusBoot booter (fun _ _ ↦ ⟨128, 0x10000000, 0x0c000000, 0x02000000⟩) kernelsDisk
        kernels (fileName 1) (fileName 2) 0 0x87e00000 dtbMem = (.ok jump, m') ∧
      HandoffIntact booter kernelsDisk kernels (fileName 1) (fileName 2) dtbMem jump m' := by
  have hi : 1 = 1 ∨ 1 = 3 := .inl rfl
  obtain ⟨jump, m', hboot, -⟩ := caribeHfsplusBoot_kernels hi
  have hbooter : ∀ x, booter.Has x → x.toNat < 2149842944 := by
    intro x hx
    rw [BooterImage.Has, inBlock_iff (by decide)] at hx
    exact hx.2
  have hdtb : ∀ x, InBlock 0x87e00000 (dtbTotalSize dtbMem 0x87e00000) x →
      2279604224 ≤ x.toNat := by
    intro x hx
    rw [dtbTotalSize_dtbMem, inBlock_iff (by decide)] at hx
    exact hx.1
  have hhull : ∀ x, InHull (kernelPhdrs booter kernelsDisk kernels (fileName 1) (fileName 2) dtbMem)
      x → 2151677952 ≤ x.toNat ∧ x.toNat < 2151682048 := by
    intro x hx
    rw [kernelPhdrs_kernels hi, inHull_singleton rfl] at hx
    exact hx
  refine ⟨jump, m', hboot, (handoffIntact_iff saneBlockSize_kernels (fun fk hfk ↦ ?_)
    (fun x hx hx' ↦ ?_) hboot).mpr ⟨fun x hx hx' ↦ ?_, fun x hx hx' ↦ ?_, fun x hx hx' ↦ ?_,
      fun k hk ↦ ?_⟩⟩
  · rw [initrdFork_kernels, Option.some_inj] at hfk
    rw [← hfk]
    exact sectorsFit_kernels (by decide) (by decide)
  · exact absurd (hdtb x hx) (by have := hbooter x hx'; omega)
  · rw [inBlock_iff (by rw [(staged_kernels hi).2.1]; decide)] at hx'
    have hle : 2214592512 ≤ x.toNat := hx'.1
    have hlt := (hhull x hx).2
    omega
  · exact absurd (hdtb x hx') (by have := hhull x hx; omega)
  · exact absurd (hbooter x hx') (by have := hhull x hx; omega)
  · have hle := hdtb _ (inBlock_add _ hk (by rw [dtbTotalSize_dtbMem] at hk; omega))
    refine stagedMem_sameOutside _ _ _ _ _ _ _ ?_
    rintro (hsec | hbuffer)
    · exact absurd (hbooter _ (booter.secbuf_in.inBlock hsec)) (by omega)
    · rw [inBlock_iff (by decide)] at hbuffer
      exact absurd hbuffer.2 (not_lt.mpr (le_trans (by decide) hle))

/-- The large one is started as well, and finds zeros where the initrd should be. -/
theorem initrd_zeroed : ∃ jump m',
    caribeHfsplusBoot booter (fun _ _ ↦ ⟨128, 0x10000000, 0x0c000000, 0x02000000⟩) kernelsDisk
        kernels (fileName 3) (fileName 2) 0 0x87e00000 dtbMem = (.ok jump, m') ∧
      ¬HandoffIntact booter kernelsDisk kernels (fileName 3) (fileName 2) dtbMem jump m' ∧
      forkByte kernelsDisk 4096 (List.ofFn (forkAt kernelsDisk kernels (1, 2)).ext) 0 = some 1 ∧
      m' 0x84000000 = 0 := by
  have hi : 3 = 1 ∨ 3 = 3 := .inr rfl
  obtain ⟨jump, m', hboot, hload⟩ := caribeHfsplusBoot_kernels hi
  have hbyte : forkByte kernelsDisk 4096 (List.ofFn (forkAt kernelsDisk kernels (1, 2)).ext) 0
      = some 1 := by decide
  have hzero : m' 0x84000000 = 0 := by
    rw [hload _ (booter.not_has_of_le (by decide)),
      loadSegments_singleton rfl (loadable_kernels hi)]
    exact if_pos (by decide)
  refine ⟨jump, m', hboot, fun hintact ↦ ?_, hbyte, hzero⟩
  obtain ⟨-, -, hinitrd, -⟩ := caribeHfsplusBoot_ok hboot
  have hne : jump.args.initrdSize ≠ 0 := by
    rw [hinitrd, (staged_kernels hi).2.1]
    decide
  obtain ⟨fk, hfk, hsize, hbytes⟩ := hintact.initrd_bytes hne
  rw [initrdFork_kernels, Option.some_inj] at hfk
  rw [← hfk] at hsize hbytes
  have hfirst := hbytes 0 (by rw [size_kernels 2 (by decide) (by decide)]; decide)
  rw [add_ofNat_zero, show hfsInitrdLoadBuffer = 0x84000000 from rfl, hzero] at hfirst
  exact absurd (hbyte.symm.trans hfirst) (by decide)

end CaribeOS
