import CaribeOS.Foundation.ByteProgram
import CaribeOS.Foundation.Word

/-!
# The kernel's access to user memory

The helpers of `xnu_stage0_user_trap_dispatch` (`kernel_xnu_entry.c`): the console, and the functions
that read a string of the caller or fill in a structure of the caller. All of them take an address
as it came in a register and use it as it is.

Each helper comes with its footprint: the block of bytes that it reads or writes.
-/

namespace CaribeOS

open ByteMemory ByteProgram Prog

/-! ## The console -/

def putc (c : UInt8) : Prog Unit := printAll (if c = 10 then [13, 10] else [c])

def putBytes : List UInt8 → Prog Unit
  | [] => pure ()
  | c :: cs => do
    putc c
    putBytes cs

def puts (s : String) : Prog Unit := putBytes (cString s)

/-- The digit of `puthex32` for a number below 16. -/
def hexDigit (v : UInt32) : UInt8 := (if v < 10 then v + 48 else v + 87).toUInt8

def puthex32 (v : UInt32) : Prog Unit :=
  putBytes (([28, 24, 20, 16, 12, 8, 4, 0] : List UInt32).map fun i ↦
    hexDigit ((v >>> i) &&& 15))

/-- The decimal digits of a number that is not zero, at most `fuel` of them. -/
def decDigits : ℕ → UInt32 → List UInt8
  | 0, _ => []
  | fuel + 1, v => if v = 0 then [] else decDigits fuel (v / 10) ++ [(v % 10 + 48).toUInt8]

def putdec (v : UInt32) : Prog Unit := if v = 0 then putc 48 else putBytes (decDigits 10 v)

/-! ## Reading the caller's memory -/

/-- The loop of `linux_print_user_buf`. -/
def printUserBytes : UInt32 → ℕ → Prog Unit
  | _, 0 => pure ()
  | a, n + 1 => .load a fun c ↦ do
    putc (if 32 ≤ c ∧ c < 127 ∨ c = 10 then c else 46)
    printUserBytes (a + 1) n

def linuxPrintUserBuf (a len : UInt32) : Prog Unit :=
  printUserBytes a (if 512 < len then 512 else len).toNat

def linuxPrintUserCstr : UInt32 → ℕ → Prog Unit
  | _, 0 => pure ()
  | a, n + 1 => .load a fun c ↦
    if c = 0 then pure ()
    else do
      putc (if 32 ≤ c ∧ c < 127 then c else 46)
      linuxPrintUserCstr (a + 1) n

/-- The loop of `linux_user_streq` from index `i` on, with what is left of the text. -/
def userStreqFrom (a : UInt32) : ℕ → List UInt8 → Prog Bool
  | i, [] => if 128 < i then pure false else .load a fun c ↦ pure (c = 0)
  | i, t :: ts =>
    if 128 < i then pure false
    else .load a fun c ↦ if c ≠ t then pure false else userStreqFrom (a + 1) (i + 1) ts

def linuxUserStreq (a : UInt32) (text : String) : Prog Bool := userStreqFrom a 0 (cString text)

/-- A chain of `linux_user_streq` tests: what stands beside the first text that is equal. -/
def userStreqCase {β : Type} (a : UInt32) : List (String × β) → Prog (Option β)
  | [] => pure none
  | (text, v) :: rest => do
    let eq ← linuxUserStreq a text
    if eq then pure (some v) else userStreqCase a rest

/-- A word from its four bytes. -/
def wordOfBytes (bs : List UInt8) : UInt32 := .ofNat (bs.foldr (fun b n ↦ b.toNat + 256 * n) 0)

def linuxLoad32 (a : UInt32) : Prog UInt32 := do
  let bs ← loadAll a 4
  pure (wordOfBytes bs)

/-! ## Writing the caller's memory -/

def linuxCopyToUser (a : UInt32) (src : List UInt8) : Prog Unit := storeAll a src

def linuxErrno (err : UInt32) : UInt32 := 0 - err

def linuxStore8 (a : UInt32) (v : UInt8) : Prog Unit := storeAll a [v]

def linuxStore16 (a : UInt32) (v : UInt16) : Prog Unit := storeAll a [v.toUInt8, (v >>> 8).toUInt8]

def linuxStore32 (a v : UInt32) : Prog Unit := storeAll a ((List.range 4).map (byteOf v))

def linuxStore64 (a lo hi : UInt32) : Prog Unit := do
  linuxStore32 a lo
  linuxStore32 (a + 4) hi

def linuxZeroUser (a len : UInt32) : Prog Unit := storeAll a (List.replicate len.toNat 0)

def linuxCopyCstrToUser (a : UInt32) (text : String) (maxLen : UInt32) (includeNul : Bool) :
    Prog UInt32 :=
  let len := UInt32.ofNat (cString text).length
  let need := len + if includeNul then 1 else 0
  if a = 0 ∨ maxLen < need then pure 0xffffffff
  else do
    linuxCopyToUser a (cString text)
    when includeNul (linuxStore8 (a + len) 0)
    pure need

/-! ## Paths -/

/-- The mode, the size and the inode number that the stat calls report. -/
structure PathMetadata where
  mode : UInt32
  size : UInt32
  ino : UInt32

def linuxModeIfdir : UInt32 := 0o40000
def linuxModeIfreg : UInt32 := 0o100000
def linuxModeIflnk : UInt32 := 0o120000
def linuxMode0644 : UInt32 := 0o644
def linuxMode0755 : UInt32 := 0o755

def stage0ProcVersion : List UInt8 :=
  cString "Linux version 0.0.1-caribe (XNU-CaribeOS stage0) rv32imac_zicsr_zifencei\n"

def stage0ProcCpuinfo : List UInt8 :=
  ["processor\t: 0\n", "hart\t\t: 0\n", "isa\t\t: rv32imac_zicsr_zifencei\n", "mmu\t\t: sv32\n",
    "uarch\t\t: qemu-virt\n", "firmware\t: OpenSBI\n", "bootloader\t: CaribeBootX\n",
    "kernel\t\t: XNU-CaribeOS stage0\n"].flatMap cString

def stage0ProcMeminfo : List UInt8 :=
  ["MemTotal:        262144 kB\n", "MemFree:         131072 kB\n",
    "MemAvailable:    131072 kB\n"].flatMap cString

def stage0ProcUptime : List UInt8 := cString "0.00 0.00\n"

def stage0ProcStat : List UInt8 :=
  ["cpu  0 0 0 0 0 0 0 0 0 0\n", "cpu0 0 0 0 0 0 0 0 0 0 0\n", "intr 0\n", "ctxt 0\n", "btime 0\n",
    "processes 1\n", "procs_running 1\n", "procs_blocked 0\n",
    "softirq 0 0 0 0 0 0 0 0 0 0 0\n"].flatMap cString

def stage0ProcCaribeos : List UInt8 :=
  ["bootloader\t: CaribeBootX\n", "cbx_version\t: 1\n", "opensbi_impl\t: OpenSBI\n",
    "sbi_runtime\t: reset=yes debug_console=yes ipi=yes rfence=yes\n",
    "fdt_model\t: riscv-virtio,qemu\n", "fdt_compatible\t: riscv-virtio\n",
    "active_mem\t: 0x80000000+0x10000000\n", "total_mem_kb\t: 262144\n", "ram_banks\t: 1\n",
    "mem_pages\t: total=65536 usable=32768 reserved=0\n"].flatMap cString

def strlen (s : List UInt8) : UInt32 := .ofNat s.length

def knownPaths : List String :=
  ["/", "/kernel.elf", "/proc", "/proc/cpuinfo", "/proc/meminfo", "/proc/uptime", "/proc/stat",
    "/proc/caribeos", "/proc/version", "/proc/self", "/proc/self/exe"]

def linuxKnownPath (a : UInt32) : Prog Bool := do
  let found ← userStreqCase a (knownPaths.map (·, ()))
  pure found.isSome

def linuxPathMetadata (kernelSize a : UInt32) : Prog (Option PathMetadata) :=
  userStreqCase a
    [("/", ⟨linuxModeIfdir ||| linuxMode0755, 0, 5⟩),
      ("/proc", ⟨linuxModeIfdir ||| linuxMode0755, 0, 5⟩),
      ("/proc/self", ⟨linuxModeIfdir ||| linuxMode0755, 0, 5⟩),
      ("/proc/self/exe", ⟨linuxModeIflnk ||| linuxMode0755, 11, 7⟩),
      ("/proc/version", ⟨linuxModeIfreg ||| linuxMode0644, strlen stage0ProcVersion, 8⟩),
      ("/proc/cpuinfo", ⟨linuxModeIfreg ||| linuxMode0644, strlen stage0ProcCpuinfo, 9⟩),
      ("/proc/meminfo", ⟨linuxModeIfreg ||| linuxMode0644, strlen stage0ProcMeminfo, 10⟩),
      ("/proc/uptime", ⟨linuxModeIfreg ||| linuxMode0644, strlen stage0ProcUptime, 12⟩),
      ("/proc/stat", ⟨linuxModeIfreg ||| linuxMode0644, strlen stage0ProcStat, 13⟩),
      ("/proc/caribeos", ⟨linuxModeIfreg ||| linuxMode0644, strlen stage0ProcCaribeos, 11⟩),
      ("/kernel.elf", ⟨linuxModeIfreg ||| linuxMode0644, kernelSize, 17⟩)]

/-! ## Structures of the caller -/

def linuxCopyoutStatx (a : UInt32) (md : PathMetadata) : Prog Unit := do
  linuxZeroUser a 256
  linuxStore32 a 0x07ff
  linuxStore32 (a + 4) 4096
  linuxStore32 (a + 16) 1
  linuxStore16 (a + 28) md.mode.toUInt16
  linuxStore32 (a + 32) md.ino
  linuxStore32 (a + 40) md.size
  linuxStore32 (a + 56) 0x07ff
  linuxStore32 (a + 140) 1
  linuxStore32 (a + 144) 1

def linuxCopyoutStat64 (a : UInt32) (md : PathMetadata) : Prog Unit := do
  linuxZeroUser a 104
  linuxStore64 a 1 0
  linuxStore64 (a + 8) md.ino 0
  linuxStore32 (a + 16) md.mode
  linuxStore32 (a + 20) 1
  linuxStore64 (a + 48) md.size 0
  linuxStore32 (a + 56) 4096
  linuxStore64 (a + 64) (if md.size = 0 then 0 else 1) 0

def linuxCopyoutStatfs64 (a : UInt32) : Prog Unit := do
  let blocks := (256 * 1024 * 1024) / 4096
  linuxZeroUser a 88
  linuxStore32 a 0x482b
  linuxStore32 (a + 4) 4096
  linuxStore64 (a + 8) blocks 0
  linuxStore64 (a + 16) (blocks / 2) 0
  linuxStore64 (a + 24) (blocks / 2) 0
  linuxStore64 (a + 32) 1024 0
  linuxStore64 (a + 40) 512 0
  linuxStore32 (a + 56) 127
  linuxStore32 (a + 60) 4096

def linuxCopyoutSysinfo (a sec : UInt32) : Prog Unit := do
  linuxZeroUser a 64
  linuxStore32 a sec
  linuxStore32 (a + 16) (256 * 1024 * 1024)
  linuxStore32 (a + 20) (128 * 1024 * 1024)
  linuxStore16 (a + 40) 1
  linuxStore32 (a + 52) 1

def linuxCopyoutRlimit64 (a cur max : UInt32) : Prog Unit := do
  linuxStore64 a cur 0
  linuxStore64 (a + 8) max 0

def linuxAlign8 (v : UInt32) : UInt32 := (v + 7) &&& ~~~7

def linuxPageAlign (v : UInt32) : UInt32 := (v + 4096 - 1) &&& ~~~(4096 - 1)

/-- `d_reclen` of an entry with that name. -/
def direntReclen (name : String) : UInt32 := linuxAlign8 (19 + strlen (cString name) + 1)

def linuxCopyoutDirent64 (a ino off type : UInt32) (name : String) : Prog Unit := do
  linuxZeroUser a (direntReclen name)
  linuxStore64 a ino 0
  linuxStore64 (a + 8) off 0
  linuxStore16 (a + 16) (direntReclen name).toUInt16
  linuxStore8 (a + 18) type.toUInt8
  linuxCopyToUser (a + 19) (cString name)
  linuxStore8 (a + 19 + strlen (cString name)) 0

def linuxCopyUtsField (uts field : UInt32) (text : String) : Prog Unit :=
  let chars := (cString text).take 64
  storeAll (uts + field * 65) (chars ++ List.replicate (65 - chars.length) 0)

def linuxFillUname (a : UInt32) : Prog Unit := do
  linuxCopyUtsField a 0 "Linux"
  linuxCopyUtsField a 1 "caribeos-rv32"
  linuxCopyUtsField a 2 "0.0.1-caribe"
  linuxCopyUtsField a 3 "XNU-CaribeOS stage0"
  linuxCopyUtsField a 4 "riscv32"
  linuxCopyUtsField a 5 "localdomain"

/-! ## Footprints -/

@[simp] theorem touches_putc (c : UInt8) (m : Mem) : (putc c).touches m = [] := touches_printAll _ _

@[simp] theorem mem_putc (c : UInt8) (m : Mem) : (putc c).mem m = m := mem_printAll _ _

@[simp] theorem touches_putBytes (cs : List UInt8) (m : Mem) : (putBytes cs).touches m = [] := by
  induction cs with
  | nil => rfl
  | cons c cs ih => simp [putBytes, ih]

@[simp] theorem mem_putBytes (cs : List UInt8) (m : Mem) : (putBytes cs).mem m = m := by
  induction cs with
  | nil => rfl
  | cons c cs ih => simp [putBytes, ih]

@[simp] theorem touches_puts (s : String) (m : Mem) : (puts s).touches m = [] := touches_putBytes _ _

@[simp] theorem mem_puts (s : String) (m : Mem) : (puts s).mem m = m := mem_putBytes _ _

@[simp] theorem touches_puthex32 (v : UInt32) (m : Mem) : (puthex32 v).touches m = [] :=
  touches_putBytes _ _

@[simp] theorem mem_puthex32 (v : UInt32) (m : Mem) : (puthex32 v).mem m = m := mem_putBytes _ _

@[simp] theorem touches_putdec (v : UInt32) (m : Mem) : (putdec v).touches m = [] := by
  rw [putdec]
  split_ifs <;> simp

@[simp] theorem mem_putdec (v : UInt32) (m : Mem) : (putdec v).mem m = m := by
  rw [putdec]
  split_ifs <;> simp

theorem mem_touches_printUserBytes (a x : UInt32) (n : ℕ) (m : Mem) :
    x ∈ (printUserBytes a n).touches m ↔ InBlock a n x := by
  induction n generalizing a with
  | zero => simp [printUserBytes]
  | succ n ih => simp [printUserBytes, touches, ih, inBlock_succ]

/-- The number of bytes that `linux_print_user_buf` prints. -/
def printedLength (len : UInt32) : ℕ := (if 512 < len then 512 else len).toNat

@[simp] theorem mem_touches_linuxPrintUserBuf (a len x : UInt32) (m : Mem) :
    x ∈ (linuxPrintUserBuf a len).touches m ↔ InBlock a (printedLength len) x :=
  mem_touches_printUserBytes _ _ _ _

@[simp] theorem mem_linuxPrintUserBuf (a len : UInt32) (m : Mem) :
    (linuxPrintUserBuf a len).mem m = m := by
  have hloop : ∀ n a, (printUserBytes a n).mem m = m := by
    intro n
    induction n with
    | zero => exact fun _ ↦ rfl
    | succ n ih => exact fun a ↦ by simp [printUserBytes, mem, ih]
  exact hloop _ _

/-- The length of the string at `a` with its terminating zero, `n` if there is none before. -/
def cstrSpan (m : Mem) : UInt32 → ℕ → ℕ
  | _, 0 => 0
  | a, n + 1 => if m a = 0 then 1 else 1 + cstrSpan m (a + 1) n

@[simp] theorem mem_touches_linuxPrintUserCstr (a x : UInt32) (n : ℕ) (m : Mem) :
    x ∈ (linuxPrintUserCstr a n).touches m ↔ InBlock a (cstrSpan m a n) x := by
  induction n generalizing a with
  | zero => simp [linuxPrintUserCstr, cstrSpan]
  | succ n ih =>
    rw [linuxPrintUserCstr, touches, cstrSpan, List.mem_cons]
    by_cases hzero : m a = 0
    · rw [if_pos hzero, if_pos hzero, inBlock_succ, touches_pure]
      simp only [List.not_mem_nil, inBlock_zero]
    · rw [if_neg hzero, if_neg hzero, Nat.add_comm, inBlock_succ, ← ih, touches_bind, touches_putc,
        mem_putc, List.nil_append]

@[simp] theorem mem_linuxPrintUserCstr (a : UInt32) (n : ℕ) (m : Mem) :
    (linuxPrintUserCstr a n).mem m = m := by
  induction n generalizing a with
  | zero => rfl
  | succ n ih =>
    rw [linuxPrintUserCstr, mem]
    by_cases hzero : m a = 0
    · rw [if_pos hzero, mem_pure]
    · rw [if_neg hzero, mem_bind, mem_putc, ih]

theorem inBlock_cstrSpan_self (m : Mem) (a : UInt32) (n : ℕ) :
    InBlock a (cstrSpan m a (n + 1)) a := by
  rw [cstrSpan]
  split_ifs
  · exact (inBlock_succ _ _ _).mpr (.inl rfl)
  · rw [Nat.add_comm]
    exact (inBlock_succ _ _ _).mpr (.inl rfl)

theorem touches_userStreqFrom {a x : UInt32} {i n : ℕ} {text : List UInt8} {m : Mem}
    (htext : ∀ t ∈ text, t ≠ 0) (hlen : text.length < n)
    (hx : x ∈ (userStreqFrom a i text).touches m) : InBlock a (cstrSpan m a n) x := by
  induction text generalizing a i n with
  | nil =>
    obtain ⟨n, rfl⟩ : ∃ k, n = k + 1 := ⟨n - 1, by omega⟩
    rw [userStreqFrom] at hx
    split_ifs at hx
    · exact absurd hx List.not_mem_nil
    · obtain rfl : x = a := by simpa [touches] using hx
      exact inBlock_cstrSpan_self m x n
  | cons t ts ih =>
    obtain ⟨n, rfl⟩ : ∃ k, n = k + 1 := ⟨n - 1, by omega⟩
    rw [List.length_cons] at hlen
    rw [userStreqFrom] at hx
    by_cases hi : 128 < i
    · rw [if_pos hi] at hx
      exact absurd hx List.not_mem_nil
    rw [if_neg hi, touches, List.mem_cons] at hx
    rcases hx with rfl | hx
    · exact inBlock_cstrSpan_self m x n
    -- the comparison goes on only past a character that is equal, and so not zero
    by_cases hne : m a ≠ t
    · rw [if_pos hne] at hx
      exact absurd hx List.not_mem_nil
    · rw [if_neg hne] at hx
      have hzero : m a ≠ 0 := not_not.mp hne ▸ htext t List.mem_cons_self
      rw [cstrSpan, if_neg hzero, Nat.add_comm, inBlock_succ]
      exact .inr (ih (fun u hu ↦ htext u (List.mem_cons_of_mem _ hu)) (by omega) hx)

theorem mem_userStreqFrom (a : UInt32) (i : ℕ) (text : List UInt8) (m : Mem) :
    (userStreqFrom a i text).mem m = m := by
  induction text generalizing a i with
  | nil =>
    rw [userStreqFrom]
    split_ifs
    · rfl
    · rfl
  | cons t ts ih =>
    rw [userStreqFrom]
    by_cases hi : 128 < i
    · rw [if_pos hi, mem_pure]
    rw [if_neg hi, mem]
    split_ifs
    · rfl
    · exact ih _ _

@[simp] theorem mem_userStreqCase {β : Type} (a : UInt32) (cases : List (String × β)) (m : Mem) :
    (userStreqCase a cases).mem m = m := by
  induction cases with
  | nil => rfl
  | cons c cs ih =>
    rw [userStreqCase, mem_bind, linuxUserStreq, mem_userStreqFrom]
    split_ifs
    · rfl
    · exact ih

/-- The texts that paths are compared with: short, and without a zero inside. -/
def IsPathText (text : String) : Prop :=
  (cString text).length < 96 ∧ (cString text).all (· != 0) = true
  deriving Decidable

/-- A chain of comparisons reads no more of the string than printing it does. -/
theorem touches_userStreqCase {β : Type} {a x : UInt32} {cases : List (String × β)} {m : Mem}
    (hcases : ∀ c ∈ cases, IsPathText c.1) (hx : x ∈ (userStreqCase a cases).touches m) :
    InBlock a (cstrSpan m a 96) x := by
  induction cases with
  | nil => exact absurd hx List.not_mem_nil
  | cons c cs ih =>
    obtain ⟨hlen, hall⟩ := hcases c List.mem_cons_self
    have htext : ∀ t ∈ cString c.1, t ≠ 0 :=
      fun t ht ↦ bne_iff_ne.mp (List.all_eq_true.mp hall t ht)
    rw [userStreqCase, touches_bind, linuxUserStreq, mem_userStreqFrom, List.mem_append] at hx
    rcases hx with hx | hx
    · exact touches_userStreqFrom htext hlen hx
    · split_ifs at hx
      · exact absurd hx List.not_mem_nil
      · exact ih (fun d hd ↦ hcases d (List.mem_cons_of_mem _ hd)) hx

/-! ### Stores -/

theorem covers_linuxStore8 (a : UInt32) (v : UInt8) : (linuxStore8 a v).Covers a 1 :=
  covers_storeAll a [v]

theorem covers_linuxStore16 (a : UInt32) (v : UInt16) : (linuxStore16 a v).Covers a 2 :=
  covers_storeAll a [_, _]

theorem covers_linuxStore32 (a v : UInt32) : (linuxStore32 a v).Covers a 4 :=
  covers_storeAll a [_, _, _, _]

theorem covers_linuxStore64 (a lo hi : UInt32) : (linuxStore64 a lo hi).Covers a 8 :=
  (covers_linuxStore32 a lo).append fun _ ↦ covers_linuxStore32 _ hi

theorem covers_linuxZeroUser (a len : UInt32) : (linuxZeroUser a len).Covers a len.toNat := by
  have h := covers_storeAll a (List.replicate len.toNat 0)
  rwa [List.length_replicate] at h

theorem covers_linuxCopyoutStatx (a : UInt32) (md : PathMetadata) :
    (linuxCopyoutStatx a md).Covers a 256 := by
  have h16 := fun o v ↦ covers_linuxStore16 (a + o) v
  have h32 := fun o v ↦ covers_linuxStore32 (a + o) v
  refine (covers_linuxZeroUser a 256).bind fun _ ↦ ?_
  refine ((covers_linuxStore32 a _).inside_start (by decide)).bind fun _ ↦ ?_
  refine ((h32 4 _).inside (by decide) (by decide)).bind fun _ ↦ ?_
  refine ((h32 16 _).inside (by decide) (by decide)).bind fun _ ↦ ?_
  refine ((h16 28 _).inside (by decide) (by decide)).bind fun _ ↦ ?_
  refine ((h32 32 _).inside (by decide) (by decide)).bind fun _ ↦ ?_
  refine ((h32 40 _).inside (by decide) (by decide)).bind fun _ ↦ ?_
  refine ((h32 56 _).inside (by decide) (by decide)).bind fun _ ↦ ?_
  refine ((h32 140 _).inside (by decide) (by decide)).bind fun _ ↦ ?_
  exact (h32 144 _).inside (by decide) (by decide)

theorem covers_linuxCopyoutStat64 (a : UInt32) (md : PathMetadata) :
    (linuxCopyoutStat64 a md).Covers a 104 := by
  have h32 := fun o v ↦ covers_linuxStore32 (a + o) v
  have h64 := fun o v ↦ covers_linuxStore64 (a + o) v 0
  refine (covers_linuxZeroUser a 104).bind fun _ ↦ ?_
  refine ((covers_linuxStore64 a _ _).inside_start (by decide)).bind fun _ ↦ ?_
  refine ((h64 8 _).inside (by decide) (by decide)).bind fun _ ↦ ?_
  refine ((h32 16 _).inside (by decide) (by decide)).bind fun _ ↦ ?_
  refine ((h32 20 _).inside (by decide) (by decide)).bind fun _ ↦ ?_
  refine ((h64 48 _).inside (by decide) (by decide)).bind fun _ ↦ ?_
  refine ((h32 56 _).inside (by decide) (by decide)).bind fun _ ↦ ?_
  exact (h64 64 _).inside (by decide) (by decide)

theorem covers_linuxCopyoutStatfs64 (a : UInt32) : (linuxCopyoutStatfs64 a).Covers a 88 := by
  have h32 := fun o v ↦ covers_linuxStore32 (a + o) v
  have h64 := fun o v ↦ covers_linuxStore64 (a + o) v 0
  refine (covers_linuxZeroUser a 88).bind fun _ ↦ ?_
  refine ((covers_linuxStore32 a _).inside_start (by decide)).bind fun _ ↦ ?_
  refine ((h32 4 _).inside (by decide) (by decide)).bind fun _ ↦ ?_
  refine ((h64 8 _).inside (by decide) (by decide)).bind fun _ ↦ ?_
  refine ((h64 16 _).inside (by decide) (by decide)).bind fun _ ↦ ?_
  refine ((h64 24 _).inside (by decide) (by decide)).bind fun _ ↦ ?_
  refine ((h64 32 _).inside (by decide) (by decide)).bind fun _ ↦ ?_
  refine ((h64 40 _).inside (by decide) (by decide)).bind fun _ ↦ ?_
  refine ((h32 56 _).inside (by decide) (by decide)).bind fun _ ↦ ?_
  exact (h32 60 _).inside (by decide) (by decide)

theorem covers_linuxCopyoutSysinfo (a sec : UInt32) : (linuxCopyoutSysinfo a sec).Covers a 64 := by
  have h32 := fun o v ↦ covers_linuxStore32 (a + o) v
  refine (covers_linuxZeroUser a 64).bind fun _ ↦ ?_
  refine ((covers_linuxStore32 a _).inside_start (by decide)).bind fun _ ↦ ?_
  refine ((h32 16 _).inside (by decide) (by decide)).bind fun _ ↦ ?_
  refine ((h32 20 _).inside (by decide) (by decide)).bind fun _ ↦ ?_
  refine ((covers_linuxStore16 (a + 40) _).inside (by decide) (by decide)).bind fun _ ↦ ?_
  exact (h32 52 _).inside (by decide) (by decide)

theorem covers_linuxCopyoutRlimit64 (a cur max : UInt32) :
    (linuxCopyoutRlimit64 a cur max).Covers a 16 :=
  (covers_linuxStore64 a cur 0).append fun _ ↦ covers_linuxStore64 _ max 0

theorem toNat_direntReclen {name : String} (h : (cString name).length ≤ 255) :
    (direntReclen name).toNat = ((cString name).length + 27) / 8 * 8 := by
  have hlen : (strlen (cString name)).toNat = (cString name).length := by
    rw [strlen, toNat_ofNat_lt (by omega)]
  have hsum : (19 + strlen (cString name) + 1 + 7).toNat = (cString name).length + 27 := by
    simp only [UInt32.toNat_add, hlen, UInt32.reduceToNat]
    omega
  rw [direntReclen, linuxAlign8, Word.toNat_and_not (k := 3) _ rfl, hsum]
  rfl

theorem covers_linuxCopyoutDirent64 {name : String} (h : (cString name).length ≤ 255)
    (a ino off type : UInt32) :
    (linuxCopyoutDirent64 a ino off type name).Covers a (direntReclen name).toNat := by
  have hreclen := toNat_direntReclen h
  have hlen : (strlen (cString name)).toNat = (cString name).length := by
    rw [strlen, toNat_ofNat_lt (by omega)]
  have hend : (19 + strlen (cString name)).toNat = (cString name).length + 19 := by
    simp only [UInt32.toNat_add, hlen, UInt32.reduceToNat]
    omega
  have h19 : (19 : UInt32).toNat = 19 := rfl
  have h8 : (8 : UInt32).toNat = 8 := rfl
  have h16 : (16 : UInt32).toNat = 16 := rfl
  have h18 : (18 : UInt32).toNat = 18 := rfl
  refine (covers_linuxZeroUser a _).bind fun _ ↦ ?_
  refine ((covers_linuxStore64 a _ _).inside_start (by omega)).bind fun _ ↦ ?_
  refine ((covers_linuxStore64 (a + 8) _ _).inside (by omega) (by omega)).bind fun _ ↦ ?_
  refine ((covers_linuxStore16 (a + 16) _).inside (by omega) (by omega)).bind fun _ ↦ ?_
  refine ((covers_linuxStore8 (a + 18) _).inside (by omega) (by omega)).bind fun _ ↦ ?_
  refine ((covers_storeAll (a + 19) _).inside (by omega) (by omega)).bind fun _ ↦ ?_
  rw [UInt32.add_assoc]
  exact (covers_linuxStore8 (a + (19 + strlen (cString name))) _).inside (by omega) (by omega)

theorem covers_linuxCopyUtsField (uts field : UInt32) (text : String) :
    (linuxCopyUtsField uts field text).Covers (uts + field * 65) 65 := by
  have h := covers_storeAll (uts + field * 65) ((cString text).take 64
    ++ List.replicate (65 - ((cString text).take 64).length) 0)
  have hlen : ((cString text).take 64 ++ List.replicate (65 - ((cString text).take 64).length)
      (0 : UInt8)).length = 65 := by
    rw [List.length_append, List.length_replicate, List.length_take]
    omega
  rwa [hlen] at h

theorem covers_linuxFillUname (a : UInt32) : (linuxFillUname a).Covers a 390 := by
  have hfield : ∀ (i : ℕ) (field : UInt32) text, field * 65 = .ofNat i →
      (linuxCopyUtsField a field text).Covers (a + .ofNat i) 65 :=
    fun i field text heq ↦ heq ▸ covers_linuxCopyUtsField a field text
  have hall : (linuxFillUname a).Covers (a + .ofNat 0) 390 := by
    refine Covers.append_add (k := 325) (hfield 0 0 _ rfl) fun _ ↦ ?_
    refine Covers.append_add (k := 260) (hfield 65 1 _ rfl) fun _ ↦ ?_
    refine Covers.append_add (k := 195) (hfield 130 2 _ rfl) fun _ ↦ ?_
    refine Covers.append_add (k := 130) (hfield 195 3 _ rfl) fun _ ↦ ?_
    exact Covers.append_add (hfield 260 4 _ rfl) fun _ ↦ hfield 325 5 _ rfl
  rwa [add_ofNat_zero] at hall

end CaribeOS
