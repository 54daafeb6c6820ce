import CaribeOS.Foundation.Runs
import CaribeOS.Stage0.Syscalls

/-!
# Which memory the system calls touch

For every system call we list the pointers that it follows, each with the number of bytes that it
reads or writes there, and show that these bytes are all that the call touches. The calls that
compare a range with the user region touch no memory, and the others compare nothing. So whether a
call stays inside the user region is a question about its arguments.
-/

namespace CaribeOS

open ByteMemory ByteProgram
open Prog hiding ret

/-! ## Operands -/

/-- The pointers of a call with the number of bytes behind each that the call reads or writes. -/
abbrev Operands := Stage0 → UserFrame → Mem → List (UInt32 × ℕ)

/-- A pointer that may be null. -/
def optional (a : UInt32) (n : ℕ) : List (UInt32 × ℕ) := if a = 0 then [] else [(a, n)]

/-- A path: its characters with the end of the string, at most 96 of them. -/
def pathBlock (m : Mem) (a : UInt32) : List (UInt32 × ℕ) := optional a (cstrSpan m a 96)

/-- The path is one that stage0 knows. -/
def IsKnownPath (m : Mem) (a : UInt32) : Prop := a ≠ 0 ∧ (linuxKnownPath a).val m = true
  deriving Decidable

def noOperands : Operands := fun _ _ _ ↦ []

def rtSigactionOperands : Operands := fun _ f _ ↦
  if f.a0 = 0 ∨ 65 ≤ f.a0 then [] else optional f.a2 16

def rtSigprocmaskOperands : Operands := fun _ f _ ↦
  optional f.a2 (if f.a3 < 8 then f.a3 else 8).toNat

def affinityOperands : Operands := fun _ f _ ↦
  if 1 < f.a0 ∨ f.a1 < 4 then [] else optional f.a2 4

def getcpuOperands : Operands := fun _ f _ ↦ optional f.a0 4 ++ optional f.a1 4

/-- The block that `mmap` clears; this address is the kernel's own. -/
def mmapOperands : Operands := fun g f _ ↦
  if linuxPageAlign f.a1 ≠ 0 ∧ linuxPageAlign f.a1 ≤ xnuStage0MmapLimit - g.mmapNext then
    [(g.mmapNext, (linuxPageAlign f.a1).toNat)]
  else []

def getcwdOperands : Operands := fun _ f _ ↦ if f.a1 < 2 then [] else optional f.a0 2

def prlimit64Operands : Operands := fun _ f _ ↦ if f.a2 = 0 then optional f.a3 16 else []

def statfs64Operands : Operands := fun _ f m ↦
  pathBlock m f.a0 ++ if IsKnownPath m f.a0 then optional f.a1 88 else []

def faccessatOperands : Operands := fun _ f m ↦ pathBlock m f.a1

def readlinkatOperands : Operands := fun _ f m ↦
  pathBlock m f.a1 ++
    if f.a1 ≠ 0 ∧ (linuxUserStreq f.a1 "/proc/self/exe").val m = true ∧ 11 ≤ f.a3 then
      optional f.a2 11
    else []

def fstatat64Operands : Operands := fun _ f m ↦
  pathBlock m f.a1 ++ if IsKnownPath m f.a1 then optional f.a2 104 else []

def statxOperands : Operands := fun _ f m ↦
  pathBlock m f.a1 ++ if IsKnownPath m f.a1 then optional f.a4 256 else []

def gettimeofdayOperands : Operands := fun _ f _ ↦ optional f.a0 8 ++ optional f.a1 8

def getrandomOperands : Operands := fun _ f _ ↦ optional f.a0 (if 32 < f.a1 then 32 else f.a1).toNat

/-- The bytes of the directory entries that fit, after `total` bytes have been written. -/
def direntBytes (count : UInt32) : List (String × UInt32 × UInt32) → UInt32 → UInt32
  | [], total => total
  | (name, _) :: rest, total =>
    if count - total < direntReclen name then total
    else direntBytes count rest (total + direntReclen name)

def getdents64Operands : Operands := fun g f _ ↦
  if f.a0 = xnuStage0ProcDirFd ∧ g.procDirOpen ≠ 0 then
    optional f.a1 (direntBytes f.a2 (procDirEntries.drop g.procDirOffset.toNat) 0).toNat
  else []

def fstatfs64Operands : Operands := fun g f _ ↦
  if f.a0 ≤ 2 ∨ f.a0 = xnuStage0ProcFd ∧ g.procOpen ≠ 0 ∨
      f.a0 = xnuStage0ProcDirFd ∧ g.procDirOpen ≠ 0 then optional f.a1 88
  else []

def fstat64Operands : Operands := fun g f _ ↦
  if f.a0 = xnuStage0ProcFd ∧ g.procOpen ≠ 0 ∨
      f.a0 = xnuStage0ProcDirFd ∧ g.procDirOpen ≠ 0 then optional f.a1 104
  else []

def readOperands : Operands := fun g f _ ↦
  if f.a0 = xnuStage0ProcFd ∧ g.procOpen ≠ 0 then optional f.a1 (readLength g f.a2).toNat else []

/-- A buffer that is printed may be at any address, zero included. -/
def writeOperands : Operands := fun _ f _ ↦ [(f.a1, printedLength f.a2)]

/-- The entries of an iovec, each followed by the buffer that it names. -/
def iovBlocks (m : Mem) : UInt32 → ℕ → List (UInt32 × ℕ)
  | _, 0 => []
  | iov, n + 1 =>
    (iov, 8) :: ((linuxLoad32 iov).val m, printedLength ((linuxLoad32 (iov + 4)).val m)) ::
      iovBlocks m (iov + 8) n

def writevOperands : Operands := fun _ f m ↦ iovBlocks m f.a1 (writevCount f.a2)

/-- The operands by the number of the system call, in the order of `syscalls`. -/
def operands : List (UInt32 × Operands) :=
  [(172, noOperands), (173, noOperands), (178, noOperands), (174, noOperands), (175, noOperands),
    (176, noOperands), (177, noOperands), (96, noOperands), (98, noOperands),
    (422, noOperands), (134, rtSigactionOperands), (135, rtSigprocmaskOperands),
    (123, affinityOperands), (122, affinityOperands), (168, getcpuOperands),
    (114, fun _ f _ ↦ optional f.a1 8), (406, fun _ f _ ↦ optional f.a1 16),
    (101, fun _ f _ ↦ optional f.a1 8), (115, fun _ f _ ↦ optional f.a3 8), (124, noOperands),
    (73, noOperands), (414, noOperands), (165, fun _ f _ ↦ optional f.a1 72),
    (153, fun _ f _ ↦ optional f.a0 16), (166, noOperands), (214, noOperands),
    (222, mmapOperands), (216, noOperands), (233, noOperands), (215, noOperands),
    (226, noOperands), (160, fun _ f _ ↦ optional f.a0 390), (17, getcwdOperands),
    (179, fun _ f _ ↦ optional f.a0 64), (261, prlimit64Operands), (43, statfs64Operands),
    (48, faccessatOperands), (78, readlinkatOperands), (79, fstatat64Operands),
    (291, statxOperands), (113, fun _ f _ ↦ optional f.a1 8),
    (403, fun _ f _ ↦ optional f.a1 16), (169, gettimeofdayOperands), (278, getrandomOperands),
    (56, faccessatOperands), (61, getdents64Operands), (44, fstatfs64Operands),
    (80, fstat64Operands), (63, readOperands), (57, noOperands), (64, writeOperands),
    (66, writevOperands), (93, noOperands), (94, noOperands)]

/-! ## The calls touch their operands and nothing else -/

/-- The bytes that the call `h` touches are those behind its operands. -/
def Meets (h : Handler) (o : Operands) : Prop :=
  ∀ info time g f m x, x ∈ (h info time g f).touches m ↔ InBlocks (o g f m) x

@[simp] theorem inBlocks_optional (a x : UInt32) (n : ℕ) :
    InBlocks (optional a n) x ↔ a ≠ 0 ∧ InBlock a n x := by
  rw [optional]
  split_ifs with hnull
  · simp [hnull]
  · simp [hnull]

/-! ### Calls without pointers -/

theorem Meets.of_silent {h : Handler}
    (htouches : ∀ info time g f m, (h info time g f).touches m = []) : Meets h noOperands := by
  intro info time g f m x
  rw [htouches, noOperands, inBlocks_nil, List.mem_nil_iff]

theorem meets_sysGetpid : Meets sysGetpid noOperands := .of_silent (by simp [sysGetpid])

theorem meets_getid (name : String) (ret : UInt32) : Meets (getid name ret) noOperands :=
  .of_silent (by simp [getid])

theorem meets_sysSetTidAddress : Meets sysSetTidAddress noOperands :=
  .of_silent (by simp [sysSetTidAddress])

theorem meets_futex (name : String) : Meets (futex name) noOperands := by
  refine .of_silent fun info time g f m ↦ ?_
  simp only [futex]
  split_ifs <;> simp

theorem meets_sysSchedYield : Meets sysSchedYield noOperands := .of_silent (by simp [sysSchedYield])

theorem meets_ppoll (name : String) : Meets (ppoll name) noOperands := by
  refine .of_silent fun info time g f m ↦ ?_
  simp only [ppoll]
  split_ifs <;> simp

theorem meets_sysUmask : Meets sysUmask noOperands := .of_silent (by simp [sysUmask])

theorem meets_sysBrk : Meets sysBrk noOperands := .of_silent (by simp [sysBrk])

theorem meets_sysMremap : Meets sysMremap noOperands := by
  refine .of_silent fun info time g f m ↦ ?_
  simp only [sysMremap]
  split_ifs <;> simp

@[simp] theorem touches_putRangeCheck (f : UserFrame) (m : Mem) :
    (putRangeCheck f).touches m = [] := by
  rw [putRangeCheck]
  split_ifs <;> simp

theorem meets_sysMadvise : Meets sysMadvise noOperands := .of_silent (by simp [sysMadvise])

theorem meets_munmap (name : String) : Meets (munmap name) noOperands :=
  .of_silent (by simp [munmap])

@[simp] theorem touches_putRet (ret : UInt32) (error : String) (m : Mem) :
    (putRet ret error).touches m = [] := by
  rw [putRet]
  split_ifs <;> simp

@[simp] theorem mem_putRet (ret : UInt32) (error : String) (m : Mem) :
    (putRet ret error).mem m = m := by
  rw [putRet]
  split_ifs <;> simp

theorem meets_sysClose : Meets sysClose noOperands := by
  refine .of_silent fun info time g f m ↦ ?_
  simp only [sysClose]
  split_ifs <;> simp

theorem meets_exit (name : String) : Meets (exit name) noOperands := .of_silent (by simp [exit])

theorem meets_unexpectedTrap : Meets unexpectedTrap noOperands :=
  .of_silent (by simp [unexpectedTrap])

/-! ### Structures of a fixed size -/

theorem meets_sysRtSigaction : Meets sysRtSigaction rtSigactionOperands := by
  intro info time g f m x
  have hzero := (covers_linuxZeroUser f.a2 16) m x
  by_cases hsig : f.a0 = 0 ∨ 65 ≤ f.a0
  · simp [sysRtSigaction, rtSigactionOperands, hsig]
  · simp [sysRtSigaction, rtSigactionOperands, hsig, hzero]

theorem meets_sysRtSigprocmask : Meets sysRtSigprocmask rtSigprocmaskOperands := by
  intro info time g f m x
  have hzero := (covers_linuxZeroUser f.a2 (if f.a3 < 8 then f.a3 else 8)) m x
  simp [sysRtSigprocmask, rtSigprocmaskOperands, hzero]

theorem meets_sysSchedGetaffinity : Meets sysSchedGetaffinity affinityOperands := by
  intro info time g f m x
  have hstore := (covers_linuxStore32 f.a2 1) m x
  by_cases hnull : f.a2 = 0
  · simp [sysSchedGetaffinity, affinityOperands, hnull]
  by_cases hbad : 1 < f.a0 ∨ f.a1 < 4
  · simp [sysSchedGetaffinity, affinityOperands, ← or_assoc, hbad]
  · simp [sysSchedGetaffinity, affinityOperands, hbad, hnull, hstore]

theorem covers_linuxLoad32 (a : UInt32) : (linuxLoad32 a).Covers a 4 := fun m x ↦ by
  simp [linuxLoad32]

@[simp] theorem mem_linuxLoad32 (a : UInt32) (m : Mem) : (linuxLoad32 a).mem m = m := by
  simp [linuxLoad32]

theorem meets_sysSchedSetaffinity : Meets sysSchedSetaffinity affinityOperands := by
  intro info time g f m x
  have hload := (covers_linuxLoad32 f.a2) m x
  have hret : ∀ mask : UInt32, ((if mask &&& 1 = 0 then do
      puts "-EINVAL"
      pure (linuxErrno linuxEinval)
    else do
      putdec 0
      pure 0 : Prog UInt32)).touches m = [] := fun mask ↦ by split_ifs <;> simp
  by_cases hnull : f.a2 = 0
  · simp [sysSchedSetaffinity, affinityOperands, hnull]
  by_cases hbad : 1 < f.a0 ∨ f.a1 < 4
  · simp [sysSchedSetaffinity, affinityOperands, ← or_assoc, hbad]
  · simp [sysSchedSetaffinity, affinityOperands, hbad, hnull, hload, hret]

theorem meets_sysGetcpu : Meets sysGetcpu getcpuOperands := by
  intro info time g f m x
  have hcpu := (covers_linuxStore32 f.a0 0) m x
  have hnode := fun m ↦ (covers_linuxStore32 f.a1 0) m x
  simp [sysGetcpu, getcpuOperands, hcpu, hnode]

theorem meets_clockGetres (name : String) {write : UInt32 → Prog Unit} {n : ℕ}
    (hwrite : ∀ a, (write a).Covers a n) :
    Meets (clockGetres name write) fun _ f _ ↦ optional f.a1 n := by
  intro info time g f m x
  have hwrite := (hwrite f.a1) m x
  simp [clockGetres, hwrite]

/-- Two or four words in a row, as the clock calls write them. -/
theorem covers_two_words (a u v : UInt32) :
    (do linuxStore32 a u; linuxStore32 (a + 4) v : Prog Unit).Covers a 8 :=
  covers_linuxStore64 a u v

theorem covers_four_words (a u v w z : UInt32) :
    (do
      linuxStore32 a u
      linuxStore32 (a + 4) v
      linuxStore32 (a + 8) w
      linuxStore32 (a + 12) z : Prog Unit).Covers a 16 := by
  refine (covers_linuxStore32 a u).append (k := 12) fun _ ↦ ?_
  refine Covers.append_add (i := 4) (k := 8) (covers_linuxStore32 _ v) fun _ ↦ ?_
  exact Covers.append_add (i := 8) (covers_linuxStore32 _ w) fun _ ↦ covers_linuxStore32 _ z

theorem meets_sysClockGetres : Meets sysClockGetres fun _ f _ ↦ optional f.a1 8 := by
  refine meets_clockGetres _ fun a ↦ ?_
  refine (covers_linuxStore32 a 0).append (k := 4) fun _ ↦ ?_
  exact (covers_linuxStore32 (a + 4) 0).bind fun _ ↦
    (covers_linuxStore32 (a + 4) 1).inside_start le_rfl

theorem meets_sysClockGetresTime64 : Meets sysClockGetresTime64 fun _ f _ ↦ optional f.a1 16 :=
  meets_clockGetres _ fun a ↦ covers_four_words a 0 0 1 0

theorem meets_sysNanosleep : Meets sysNanosleep fun _ f _ ↦ optional f.a1 8 := by
  intro info time g f m x
  have hzero := (covers_linuxZeroUser f.a1 8) m x
  simp [sysNanosleep, hzero]

theorem meets_sysClockNanosleep : Meets sysClockNanosleep fun _ f _ ↦ optional f.a3 8 := by
  intro info time g f m x
  have hzero := (covers_linuxZeroUser f.a3 8) m x
  simp [sysClockNanosleep, hzero]

theorem meets_sysGetrusage : Meets sysGetrusage fun _ f _ ↦ optional f.a1 72 := by
  intro info time g f m x
  have hzero := (covers_linuxZeroUser f.a1 72) m x
  by_cases hnull : f.a1 = 0
  · simp [sysGetrusage, hnull]
  · simp [sysGetrusage, hnull, hzero]

theorem meets_sysTimes : Meets sysTimes fun _ f _ ↦ optional f.a0 16 := by
  intro info time g f m x
  have hzero := (covers_linuxZeroUser f.a0 16) m x
  simp [sysTimes, hzero]

theorem meets_clockGettime (name : String) {write : UInt32 → UInt32 → UInt32 → Prog Unit} {n : ℕ}
    (hwrite : ∀ a sec nsec, (write a sec nsec).Covers a n) :
    Meets (clockGettime name write) fun _ f _ ↦ optional f.a1 n := by
  intro info time g f m x
  have hwrite := fun sec nsec ↦ (hwrite f.a1 sec nsec) m x
  simp [clockGettime, hwrite]

theorem meets_sysClockGettime : Meets sysClockGettime fun _ f _ ↦ optional f.a1 8 :=
  meets_clockGettime _ covers_two_words

theorem meets_sysClockGettime64 : Meets sysClockGettime64 fun _ f _ ↦ optional f.a1 16 :=
  meets_clockGettime _ fun a sec nsec ↦ covers_four_words a sec 0 nsec 0

theorem meets_sysGettimeofday : Meets sysGettimeofday gettimeofdayOperands := by
  intro info time g f m x
  have hwords := fun a u v m ↦ (covers_two_words a u v) m x
  simp only [touches_bind, List.mem_append] at hwords
  simp [sysGettimeofday, gettimeofdayOperands, hwords]

theorem meets_sysUname : Meets sysUname fun _ f _ ↦ optional f.a0 390 := by
  intro info time g f m x
  have hfill := (covers_linuxFillUname f.a0) m x
  simp [sysUname, hfill]

theorem meets_sysSysinfo : Meets sysSysinfo fun _ f _ ↦ optional f.a0 64 := by
  intro info time g f m x
  have hcopy := fun sec ↦ (covers_linuxCopyoutSysinfo f.a0 sec) m x
  by_cases hnull : f.a0 = 0
  · simp [sysSysinfo, hnull]
  · simp [sysSysinfo, hnull, hcopy]

theorem meets_sysPrlimit64 : Meets sysPrlimit64 prlimit64Operands := by
  intro info time g f m x
  have hcopy := fun lim ↦ (covers_linuxCopyoutRlimit64 f.a3 lim lim) m x
  by_cases hset : f.a2 = 0
  · simp [sysPrlimit64, prlimit64Operands, hset, hcopy]
  · simp [sysPrlimit64, prlimit64Operands, hset]

theorem meets_sysFstatfs64 : Meets sysFstatfs64 fstatfs64Operands := by
  intro info time g f m x
  have hcopy := (covers_linuxCopyoutStatfs64 f.a1) m x
  by_cases hnull : f.a1 = 0
  · simp [sysFstatfs64, fstatfs64Operands, hnull]
  by_cases hfd : f.a0 ≤ 2 ∨ f.a0 = xnuStage0ProcFd ∧ g.procOpen ≠ 0 ∨
      f.a0 = xnuStage0ProcDirFd ∧ g.procDirOpen ≠ 0
  · simp only [sysFstatfs64, fstatfs64Operands, if_neg hnull, if_pos hfd]
    simp [hnull, hcopy]
  · simp only [sysFstatfs64, fstatfs64Operands, if_neg hnull, if_neg hfd]
    simp

theorem meets_sysFstat64 : Meets sysFstat64 fstat64Operands := by
  intro info time g f m x
  have hcopy := fun md ↦ (covers_linuxCopyoutStat64 f.a1 md) m x
  by_cases hnull : f.a1 = 0
  · simp [sysFstat64, fstat64Operands, hnull]
  by_cases hfile : f.a0 = xnuStage0ProcFd ∧ g.procOpen ≠ 0
  · simp only [sysFstat64, fstat64Operands, if_neg hnull, if_pos hfile, if_pos (Or.inl hfile)]
    simp [hnull, hcopy]
  by_cases hdir : f.a0 = xnuStage0ProcDirFd ∧ g.procDirOpen ≠ 0
  · simp only [sysFstat64, fstat64Operands, if_neg hnull, if_neg hfile, if_pos hdir,
      if_pos (Or.inr hdir)]
    simp [hnull, hcopy]
  · simp only [sysFstat64, fstat64Operands, if_neg hnull, if_neg hfile, if_neg hdir,
      if_neg (not_or.mpr ⟨hfile, hdir⟩)]
    simp

/-! ### Paths -/

theorem val_userStreqCase_isSome {β : Type} (a : UInt32) (cases : List (String × β)) (m : Mem) :
    ((userStreqCase a cases).val m).isSome =
      (cases.map Prod.fst).any fun text ↦ (linuxUserStreq a text).val m := by
  induction cases with
  | nil => rfl
  | cons c cs ih =>
    have hmem : (linuxUserStreq a c.1).mem m = m := mem_userStreqFrom _ _ _ _
    rw [userStreqCase, val_bind, hmem, List.map_cons, List.any_cons, ← ih]
    cases (linuxUserStreq a c.1).val m
    · rfl
    · rfl

theorem val_userStreqCase_map {β γ : Type} (f : β → γ) (a : UInt32) (cases : List (String × β))
    (m : Mem) : (userStreqCase a (cases.map fun c ↦ (c.1, f c.2))).val m =
      ((userStreqCase a cases).val m).map f := by
  induction cases with
  | nil => rfl
  | cons c cs ih =>
    have hmem : (linuxUserStreq a c.1).mem m = m := mem_userStreqFrom _ _ _ _
    rw [List.map_cons, userStreqCase, userStreqCase, val_bind, val_bind, hmem]
    cases (linuxUserStreq a c.1).val m
    · exact ih
    · rfl

/-- The chain of `statx` assigns what `linux_path_metadata` reports. -/
theorem val_statxMetadata (kernelSize a : UInt32) (m : Mem) :
    (statxMetadata kernelSize a).val m =
      ((linuxPathMetadata kernelSize a).val m).getD statxDefault := by
  have hmap := val_userStreqCase_map (· statxDefault) a (statxCases kernelSize) m
  rw [statxMetadata, val_bind, val_pure]
  change (linuxPathMetadata kernelSize a).val m = _ at hmap
  rw [hmap]
  cases (userStreqCase a (statxCases kernelSize)).val m
  · rfl
  · rfl

theorem val_linuxKnownPath (a : UInt32) (m : Mem) :
    (linuxKnownPath a).val m = knownPaths.any fun text ↦ (linuxUserStreq a text).val m := by
  rw [linuxKnownPath, val_bind, val_pure, val_userStreqCase_isSome, List.map_map]
  exact congrArg (List.any · _) (List.map_id _)

theorem val_linuxPathMetadata_isSome (kernelSize a : UInt32) (m : Mem) :
    ((linuxPathMetadata kernelSize a).val m).isSome = (linuxKnownPath a).val m := by
  rw [linuxPathMetadata, val_userStreqCase_isSome, val_linuxKnownPath]
  refine List.Perm.any_eq ?_
  simp only [List.map_cons, List.map_nil]
  decide

variable {a x total : UInt32} {m : Mem} {f : UserFrame} {g : Stage0}

@[simp] theorem mem_linuxKnownPath (a : UInt32) (m : Mem) : (linuxKnownPath a).mem m = m := by
  simp [linuxKnownPath]

@[simp] theorem mem_linuxPathMetadata (kernelSize a : UInt32) (m : Mem) :
    (linuxPathMetadata kernelSize a).mem m = m := mem_userStreqCase _ _ _

@[simp] theorem mem_statxMetadata (kernelSize a : UInt32) (m : Mem) :
    (statxMetadata kernelSize a).mem m = m := by
  simp [statxMetadata]

theorem inBlocks_pathBlock (hnull : a ≠ 0) (hx : InBlock a (cstrSpan m a 96) x) :
    InBlocks (pathBlock m a) x := by
  rw [pathBlock, inBlocks_optional]
  exact ⟨hnull, hx⟩

theorem inBlocks_linuxKnownPath (hnull : a ≠ 0) (hx : x ∈ (linuxKnownPath a).touches m) :
    InBlocks (pathBlock m a) x := by
  rw [linuxKnownPath, touches_bind, touches_pure, List.append_nil] at hx
  refine inBlocks_pathBlock hnull (touches_userStreqCase ?_ hx)
  decide

theorem inBlocks_linuxPathMetadata {kernelSize : UInt32} (hnull : a ≠ 0)
    (hx : x ∈ (linuxPathMetadata kernelSize a).touches m) : InBlocks (pathBlock m a) x := by
  refine inBlocks_pathBlock hnull (touches_userStreqCase ?_ hx)
  simp only [List.forall_mem_cons]
  decide

theorem inBlocks_statxMetadata {kernelSize : UInt32} (hnull : a ≠ 0)
    (hx : x ∈ (statxMetadata kernelSize a).touches m) : InBlocks (pathBlock m a) x := by
  rw [statxMetadata, touches_bind, touches_pure, List.append_nil] at hx
  refine inBlocks_pathBlock hnull (touches_userStreqCase ?_ hx)
  simp only [statxCases, List.forall_mem_cons]
  decide

@[simp] theorem touches_putDirfd (fd : UInt32) (m : Mem) : (putDirfd fd).touches m = [] := by
  rw [putDirfd]
  split_ifs <;> simp

@[simp] theorem mem_putDirfd (fd : UInt32) (m : Mem) : (putDirfd fd).mem m = m := by
  rw [putDirfd]
  split_ifs <;> simp

@[simp] theorem mem_touches_putPath (a x : UInt32) (m : Mem) :
    x ∈ (putPath a).touches m ↔ InBlocks (pathBlock m a) x := by
  rw [putPath, touches_when, pathBlock, inBlocks_optional]
  split_ifs with hnull
  · simp [hnull]
  · simp [hnull]

@[simp] theorem mem_putPath (a : UInt32) (m : Mem) : (putPath a).mem m = m := by
  rw [putPath, when]
  split_ifs <;> simp

/-- To look up a path that has been printed touches nothing new. -/
theorem or_lookup_or {path lookup rest : Prop} (h : lookup → path) :
    path ∨ lookup ∨ rest ↔ path ∨ rest := by
  rw [← or_assoc, or_iff_left_of_imp h]

theorem meets_sysFaccessat : Meets sysFaccessat faccessatOperands := by
  intro info time g f m x
  by_cases hnull : f.a1 = 0
  · simp [sysFaccessat, faccessatOperands, hnull]
  have hlook : x ∈ (linuxKnownPath f.a1).touches m → _ := inBlocks_linuxKnownPath hnull
  by_cases hknown : (linuxKnownPath f.a1).val m
  · simpa [sysFaccessat, faccessatOperands, hnull, hknown] using hlook
  · simpa [sysFaccessat, faccessatOperands, hnull, hknown] using hlook

theorem meets_sysStatfs64 : Meets sysStatfs64 statfs64Operands := by
  intro info time g f m x
  have hcopy := (covers_linuxCopyoutStatfs64 f.a1) m x
  by_cases hbuf : f.a1 = 0
  · simp [sysStatfs64, statfs64Operands, hbuf]
  by_cases hnull : f.a0 = 0
  · simp [sysStatfs64, statfs64Operands, IsKnownPath, hbuf, hnull]
  have hlook : x ∈ (linuxKnownPath f.a0).touches m → _ := inBlocks_linuxKnownPath hnull
  by_cases hknown : (linuxKnownPath f.a0).val m
  · simpa [sysStatfs64, statfs64Operands, IsKnownPath, hbuf, hnull, hknown, hcopy] using
      or_lookup_or hlook
  · simpa [sysStatfs64, statfs64Operands, IsKnownPath, hbuf, hnull, hknown] using hlook

theorem meets_sysFstatat64 : Meets sysFstatat64 fstatat64Operands := by
  intro info time g f m x
  have hcopy := fun md ↦ (covers_linuxCopyoutStat64 f.a2 md) m x
  by_cases hbuf : f.a2 = 0
  · simp [sysFstatat64, fstatat64Operands, hbuf]
  by_cases hnull : f.a1 = 0
  · simp [sysFstatat64, fstatat64Operands, IsKnownPath, hbuf, hnull]
  have hlook : x ∈ (linuxPathMetadata info.kernelSize f.a1).touches m → _ :=
    inBlocks_linuxPathMetadata hnull
  have hknown := val_linuxPathMetadata_isSome info.kernelSize f.a1 m
  cases hfound : (linuxPathMetadata info.kernelSize f.a1).val m with
  | none =>
    simpa [sysFstatat64, fstatat64Operands, IsKnownPath, hbuf, hnull, hfound, ← hknown] using hlook
  | some md =>
    simpa [sysFstatat64, fstatat64Operands, IsKnownPath, hbuf, hnull, hfound, ← hknown, hcopy]
      using or_lookup_or hlook

theorem meets_sysStatx : Meets sysStatx statxOperands := by
  intro info time g f m x
  have hcopy := fun md ↦ (covers_linuxCopyoutStatx f.a4 md) m x
  by_cases hbuf : f.a4 = 0
  · simp [sysStatx, statxOperands, hbuf]
  by_cases hnull : f.a1 = 0
  · simp [sysStatx, statxOperands, IsKnownPath, hbuf, hnull]
  have hlook : x ∈ (linuxKnownPath f.a1).touches m → _ := inBlocks_linuxKnownPath hnull
  have hmeta : x ∈ (statxMetadata info.kernelSize f.a1).touches m → _ :=
    inBlocks_statxMetadata hnull
  by_cases hknown : (linuxKnownPath f.a1).val m
  · simpa [sysStatx, statxOperands, IsKnownPath, hbuf, hnull, hknown, hcopy] using
      (or_lookup_or hlook).trans (or_lookup_or hmeta)
  · simpa [sysStatx, statxOperands, IsKnownPath, hbuf, hnull, hknown] using hlook

theorem meets_sysOpenat : Meets sysOpenat faccessatOperands := by
  intro info time g f m x
  by_cases hnull : f.a1 = 0
  · simp [sysOpenat, faccessatOperands, hnull]
  have hlook : x ∈ (userStreqCase f.a1 openatCases).touches m → InBlocks (pathBlock m f.a1) x :=
    fun hx ↦ inBlocks_pathBlock hnull (touches_userStreqCase (by
      decide) hx)
  simpa [sysOpenat, faccessatOperands, hnull] using hlook

/-! ### Texts -/

/-- What a text takes in the caller's memory. -/
def textBytes (text : String) (includeNul : Bool) : ℕ :=
  (cString text).length + if includeNul then 1 else 0

theorem mem_touches_linuxCopyCstrToUser (text : String) (a maxLen : UInt32) (includeNul : Bool)
    (m : Mem) (x : UInt32) :
    x ∈ (linuxCopyCstrToUser a text maxLen includeNul).touches m ↔
      InBlocks (if maxLen < .ofNat (textBytes text includeNul) then []
        else optional a (textBytes text includeNul)) x := by
  have hneed : UInt32.ofNat (cString text).length + (if includeNul then 1 else 0) =
      .ofNat (textBytes text includeNul) := by
    rw [textBytes, UInt32.ofNat_add]
    cases includeNul
    · rfl
    · rfl
  rw [linuxCopyCstrToUser, hneed]
  by_cases hnull : a = 0
  · simp [hnull]
  by_cases hshort : maxLen < .ofNat (textBytes text includeNul)
  · simp [hshort]
  have hcovers : (do
      linuxCopyToUser a (cString text)
      when includeNul (linuxStore8 (a + .ofNat (cString text).length) 0) : Prog Unit).Covers a
        (textBytes text includeNul) := by
    refine (covers_storeAll a _).append fun _ ↦ ?_
    cases includeNul
    · exact fun m x ↦ by simp
    · exact fun m x ↦ by simpa using covers_linuxStore8 _ 0 m x
  simpa [hnull, hshort] using hcovers m x

theorem meets_sysGetcwd : Meets sysGetcwd getcwdOperands := by
  intro info time g f m x
  have hcopy := mem_touches_linuxCopyCstrToUser "/" f.a0 f.a1 true m x
  have hbytes : textBytes "/" true = 2 := by decide
  have hret : ∀ (r : UInt32) m, ((if r = 0xffffffff then do
      puts "-ERANGE"
      pure (linuxErrno linuxErange)
    else do
      puts "\"/\""
      pure r : Prog UInt32)).touches m = [] := fun r m ↦ by split_ifs <;> simp
  rw [hbytes] at hcopy
  simpa [sysGetcwd, getcwdOperands, hret] using hcopy

theorem meets_sysReadlinkat : Meets sysReadlinkat readlinkatOperands := by
  intro info time g f m x
  have hcopy := mem_touches_linuxCopyCstrToUser "/kernel.elf" f.a2 f.a3 false m x
  have hbytes : textBytes "/kernel.elf" false = 11 := by decide
  rw [hbytes] at hcopy
  by_cases hnull : f.a1 = 0
  · simp [sysReadlinkat, readlinkatOperands, hnull]
  have htext : ∀ c ∈ [("/proc/self/exe", ())], IsPathText c.1 := by
    decide
  have hlook : x ∈ (userStreqCase f.a1 [("/proc/self/exe", ())]).touches m →
      InBlocks (pathBlock m f.a1) x :=
    fun hx ↦ inBlocks_pathBlock hnull (touches_userStreqCase htext hx)
  have hret : ∀ (r : UInt32) m, ((if r = 0xffffffff then do
      puts "-ERANGE"
      pure (linuxErrno linuxErange)
    else do
      puts "\"/kernel.elf\""
      pure r : Prog UInt32)).touches m = [] := fun r m ↦ by split_ifs <;> simp
  have hsome := val_userStreqCase_isSome f.a1 [("/proc/self/exe", ())] m
  rw [List.map_singleton, List.any_cons, List.any_nil, Bool.or_false] at hsome
  by_cases hexe : (linuxUserStreq f.a1 "/proc/self/exe").val m
  · rw [hexe] at hsome
    simpa [sysReadlinkat, readlinkatOperands, hnull, hsome, hexe, hret, hcopy] using
      or_lookup_or hlook
  · rw [Bool.not_eq_true] at hexe
    simpa [sysReadlinkat, readlinkatOperands, hnull, hsome, hexe] using hlook

theorem meets_sysGetrandom : Meets sysGetrandom getrandomOperands := by
  intro info time g f m x
  by_cases hnull : f.a0 = 0
  · simp [sysGetrandom, getrandomOperands, hnull]
  · simp [sysGetrandom, getrandomOperands, hnull]

theorem length_linuxProcFileContent (file : UInt32) :
    (linuxProcFileContent file).length < 4294967296 := by
  rw [linuxProcFileContent]
  split_ifs <;> decide +kernel

theorem toNat_strlen_linuxProcFileContent (file : UInt32) :
    (strlen (linuxProcFileContent file)).toNat = (linuxProcFileContent file).length := by
  rw [strlen, toNat_ofNat_lt (length_linuxProcFileContent file)]

theorem length_take_readLength (g : Stage0) (count : UInt32) :
    (((linuxProcFileContent g.procFile).drop g.procOffset.toNat).take
      (readLength g count).toNat).length = (readLength g count).toNat := by
  have hsize := toNat_strlen_linuxProcFileContent g.procFile
  rw [List.length_take, List.length_drop, ← hsize, Nat.min_eq_left]
  rw [readLength]
  generalize strlen (linuxProcFileContent g.procFile) = size
  by_cases hin : g.procOffset < size
  · simp only [if_pos hin]
    have hle : g.procOffset ≤ size := UInt32.le_of_lt hin
    rw [← UInt32.toNat_sub_of_le _ _ hle]
    split_ifs with hleft
    · rfl
    · exact UInt32.le_iff_toNat_le.mp (UInt32.not_lt.mp hleft)
  · simp only [if_neg hin]
    split_ifs with hleft
    · exact Nat.zero_le _
    · obtain rfl : count = 0 := UInt32.le_zero_iff.mp (UInt32.not_lt.mp hleft)
      exact Nat.zero_le _

theorem meets_sysRead : Meets sysRead readOperands := by
  intro info time g f m x
  by_cases hfd : f.a0 = xnuStage0ProcFd ∧ g.procOpen ≠ 0
  · by_cases hnull : f.a1 = 0
    · simp [sysRead, readOperands, hnull]
    · have hcopy := mem_touches_storeAll f.a1 x
        (((linuxProcFileContent g.procFile).drop g.procOffset.toNat).take
          (readLength g f.a2).toNat) m
      rw [length_take_readLength] at hcopy
      simpa [sysRead, readOperands, ← and_assoc, hfd, hnull, linuxCopyToUser] using hcopy
  · simp [sysRead, readOperands, ← and_assoc, hfd]

/-! ### Directory entries and printed buffers -/

theorem length_name_of_mem {e : String × UInt32 × UInt32} (h : e ∈ procDirEntries) :
    (cString e.1).length ≤ 255 := by
  revert e
  decide

/-- An entry is written only where it fits, so that the sum does not wrap around. -/
theorem toNat_add_of_fits {count n : UInt32} (htotal : total ≤ count) (hfits : ¬count - total < n) :
    (total + n).toNat = total.toNat + n.toNat ∧ total + n ≤ count := by
  rw [UInt32.not_lt, UInt32.le_iff_toNat_le, UInt32.toNat_sub_of_le _ _ htotal] at hfits
  rw [UInt32.le_iff_toNat_le] at htotal
  have hcount := count.toNat_lt
  have hsum : (total + n).toNat = total.toNat + n.toNat := by
    rw [UInt32.toNat_add]
    omega
  refine ⟨hsum, ?_⟩
  rw [UInt32.le_iff_toNat_le, hsum]
  omega

theorem le_direntBytes {count : UInt32} (entries : List (String × UInt32 × UInt32))
    (htotal : total ≤ count) : total.toNat ≤ (direntBytes count entries total).toNat := by
  induction entries generalizing total with
  | nil => exact le_rfl
  | cons e rest ih =>
    rw [direntBytes]
    split_ifs with hfull
    · exact le_rfl
    · obtain ⟨hsum, hle⟩ := toNat_add_of_fits htotal hfull
      have hrest := ih hle
      omega

theorem mem_touches_getdentsLoop {entries : List (String × UInt32 × UInt32)}
    (hentries : ∀ e ∈ entries, (cString e.1).length ≤ 255) (a count offset : UInt32)
    (htotal : total ≤ count) (m : Mem) (x : UInt32) :
    x ∈ (getdentsLoop a count entries offset total).touches m ↔
      InBlock (a + total) ((direntBytes count entries total).toNat - total.toNat) x := by
  induction entries generalizing offset total m with
  | nil => simp [direntBytes, getdentsLoop]
  | cons e rest ih =>
    obtain ⟨name, ino, type⟩ := e
    rw [direntBytes, getdentsLoop]
    by_cases hfull : count - total < direntReclen name
    · simp [hfull]
    have hcopy := (covers_linuxCopyoutDirent64 (hentries _ List.mem_cons_self) (a + total) ino
      (offset + 1) type) m x
    obtain ⟨hsum, hnext⟩ := toNat_add_of_fits htotal hfull
    have hle := le_direntBytes rest hnext
    have hlen : (direntBytes count rest (total + direntReclen name)).toNat - total.toNat =
        (direntReclen name).toNat + ((direntBytes count rest (total + direntReclen name)).toNat -
          (total + direntReclen name).toNat) := by
      omega
    have hrest := ih (fun e he ↦ hentries e (List.mem_cons_of_mem _ he)) (offset + 1) hnext
    rw [if_neg hfull, if_neg hfull, hlen, inBlock_append, UInt32.ofNat_toNat, UInt32.add_assoc]
    simp [hcopy, hrest]

theorem meets_sysGetdents64 : Meets sysGetdents64 getdents64Operands := by
  intro info time g f m x
  by_cases hfd : f.a0 = xnuStage0ProcDirFd ∧ g.procDirOpen ≠ 0
  · by_cases hnull : f.a1 = 0
    · simp [sysGetdents64, getdents64Operands, hnull]
    · have hentries : ∀ e ∈ procDirEntries.drop g.procDirOffset.toNat,
          (cString e.1).length ≤ 255 :=
        fun e he ↦ length_name_of_mem (List.mem_of_mem_drop he)
      have hloop := mem_touches_getdentsLoop hentries f.a1 f.a2 g.procDirOffset
        (UInt32.zero_le : 0 ≤ f.a2) m x
      simpa [sysGetdents64, getdents64Operands, ← and_assoc, hfd, hnull] using hloop
  · by_cases hnull : f.a1 = 0
    · simp [sysGetdents64, getdents64Operands, hnull]
    · simp [sysGetdents64, getdents64Operands, hfd, hnull]

theorem meets_sysWrite : Meets sysWrite writeOperands := by
  intro info time g f m x
  simp [sysWrite, writeOperands]

theorem mem_touches_writevLoop (iov : UInt32) (n : ℕ) (total : UInt32) (m : Mem) (x : UInt32) :
    x ∈ (writevLoop iov n total).touches m ↔ InBlocks (iovBlocks m iov n) x := by
  induction n generalizing iov total with
  | zero => simp [writevLoop, iovBlocks]
  | succ n ih =>
    have hbase := (covers_linuxLoad32 iov) m x
    have hlen := (covers_linuxLoad32 (iov + 4)) m x
    have hentry : InBlock iov 8 x ↔ InBlock iov 4 x ∨ InBlock (iov + 4) 4 x :=
      inBlock_append iov x 4 4
    simp [writevLoop, iovBlocks, ih, hbase, hlen, hentry, or_assoc]

theorem meets_sysWritev : Meets sysWritev writevOperands := by
  intro info time g f m x
  simp [sysWritev, writevOperands, mem_touches_writevLoop]

theorem meets_sysMmap : Meets sysMmap mmapOperands := by
  intro info time g f m x
  have hzero := (covers_linuxZeroUser g.mmapNext (linuxPageAlign f.a1)) m x
  by_cases hfits : linuxPageAlign f.a1 ≠ 0 ∧ linuxPageAlign f.a1 ≤ xnuStage0MmapLimit - g.mmapNext
  · simp only [sysMmap, mmapOperands, if_pos hfits]
    simp [hzero]
  · simp only [sysMmap, mmapOperands, if_neg hfits]
    simp

/-! ### The dispatcher -/

theorem meets_syscalls : List.Forall₂ (fun s o ↦ s.1 = o.1 ∧ Meets s.2 o.2) syscalls operands :=
  .cons ⟨rfl, meets_sysGetpid⟩ <| .cons ⟨rfl, meets_getid _ _⟩ <| .cons ⟨rfl, meets_getid _ _⟩ <|
  .cons ⟨rfl, meets_getid _ _⟩ <| .cons ⟨rfl, meets_getid _ _⟩ <| .cons ⟨rfl, meets_getid _ _⟩ <|
  .cons ⟨rfl, meets_getid _ _⟩ <| .cons ⟨rfl, meets_sysSetTidAddress⟩ <|
  .cons ⟨rfl, meets_futex _⟩ <| .cons ⟨rfl, meets_futex _⟩ <| .cons ⟨rfl, meets_sysRtSigaction⟩ <|
  .cons ⟨rfl, meets_sysRtSigprocmask⟩ <| .cons ⟨rfl, meets_sysSchedGetaffinity⟩ <|
  .cons ⟨rfl, meets_sysSchedSetaffinity⟩ <| .cons ⟨rfl, meets_sysGetcpu⟩ <|
  .cons ⟨rfl, meets_sysClockGetres⟩ <| .cons ⟨rfl, meets_sysClockGetresTime64⟩ <|
  .cons ⟨rfl, meets_sysNanosleep⟩ <| .cons ⟨rfl, meets_sysClockNanosleep⟩ <|
  .cons ⟨rfl, meets_sysSchedYield⟩ <| .cons ⟨rfl, meets_ppoll _⟩ <| .cons ⟨rfl, meets_ppoll _⟩ <|
  .cons ⟨rfl, meets_sysGetrusage⟩ <| .cons ⟨rfl, meets_sysTimes⟩ <| .cons ⟨rfl, meets_sysUmask⟩ <|
  .cons ⟨rfl, meets_sysBrk⟩ <| .cons ⟨rfl, meets_sysMmap⟩ <| .cons ⟨rfl, meets_sysMremap⟩ <|
  .cons ⟨rfl, meets_sysMadvise⟩ <| .cons ⟨rfl, meets_munmap _⟩ <| .cons ⟨rfl, meets_munmap _⟩ <|
  .cons ⟨rfl, meets_sysUname⟩ <| .cons ⟨rfl, meets_sysGetcwd⟩ <| .cons ⟨rfl, meets_sysSysinfo⟩ <|
  .cons ⟨rfl, meets_sysPrlimit64⟩ <| .cons ⟨rfl, meets_sysStatfs64⟩ <|
  .cons ⟨rfl, meets_sysFaccessat⟩ <| .cons ⟨rfl, meets_sysReadlinkat⟩ <|
  .cons ⟨rfl, meets_sysFstatat64⟩ <| .cons ⟨rfl, meets_sysStatx⟩ <|
  .cons ⟨rfl, meets_sysClockGettime⟩ <| .cons ⟨rfl, meets_sysClockGettime64⟩ <|
  .cons ⟨rfl, meets_sysGettimeofday⟩ <| .cons ⟨rfl, meets_sysGetrandom⟩ <|
  .cons ⟨rfl, meets_sysOpenat⟩ <| .cons ⟨rfl, meets_sysGetdents64⟩ <|
  .cons ⟨rfl, meets_sysFstatfs64⟩ <| .cons ⟨rfl, meets_sysFstat64⟩ <| .cons ⟨rfl, meets_sysRead⟩ <|
  .cons ⟨rfl, meets_sysClose⟩ <| .cons ⟨rfl, meets_sysWrite⟩ <| .cons ⟨rfl, meets_sysWritev⟩ <|
  .cons ⟨rfl, meets_exit _⟩ <| .cons ⟨rfl, meets_exit _⟩ .nil

theorem lookup_of_forall₂ {α β : Type} {R : α → β → Prop} {l : List (UInt32 × α)}
    {l' : List (UInt32 × β)} (h : List.Forall₂ (fun s o ↦ s.1 = o.1 ∧ R s.2 o.2) l l')
    (key : UInt32) : Option.Rel R (l.lookup key) (l'.lookup key) := by
  induction h with
  | nil => exact .none
  | @cons s o l l' hso _ ih =>
    obtain ⟨hkey, hR⟩ := hso
    rw [List.lookup_cons, List.lookup_cons, ← hkey]
    split
    · exact .some hR
    · exact ih

theorem meets_lookup (number : UInt32) :
    Meets ((syscalls.lookup number).getD unexpectedTrap)
      ((operands.lookup number).getD noOperands) := by
  have hrel := lookup_of_forall₂ meets_syscalls number
  generalize syscalls.lookup number = s at hrel ⊢
  generalize operands.lookup number = o at hrel ⊢
  cases hrel with
  | some h => exact h
  | none => exact meets_unexpectedTrap

/-- The operands of a trap. -/
def trapOperands : Operands := fun g f m ↦
  if f.scause = 8 then ((operands.lookup f.a7).getD noOperands) (g.enter f) f m else []

/-- **The footprint of the dispatcher.** Whatever the trap, the bytes behind its operands are those
that are touched. -/
theorem meets_xnuStage0UserTrapDispatch : Meets xnuStage0UserTrapDispatch trapOperands := by
  intro info time g f m x
  rw [xnuStage0UserTrapDispatch, trapOperands]
  split_ifs
  · exact meets_lookup f.a7 info time (g.enter f) f m x
  · exact meets_unexpectedTrap info time (g.enter f) f m x

/-! ## What the calls do to the kernel's variables -/

/-- The pages for `mmap` lie behind the program, in the user region. -/
def MmapInRange (next : UInt32) : Prop := xnuStage0MmapBase ≤ next ∧ next ≤ xnuStage0MmapLimit
  deriving Decidable

/-- The variables for the files are the same. -/
def SameFile (g g' : Stage0) : Prop :=
  g'.procOpen = g.procOpen ∧ g'.procOffset = g.procOffset ∧ g'.procFile = g.procFile

/-- Most calls end with the variables that they were given, or with others of them changed. -/
theorem keeps_syscalls : ∀ s ∈ syscalls, s.1 ∉ ([222, 56, 63, 57] : List UInt32) →
    ∀ info time g f, (s.2 info time g f).Ends fun r ↦
      SameFile g r.1 ∧ r.1.mmapNext = g.mmapNext := by
  rw [syscalls]
  repeat' refine List.forall_mem_cons.mpr ⟨?_, ?_⟩
  all_goals first
    | intro hcall info time g f
      repeat refine Ends.after fun _ ↦ ?_
      exact ⟨⟨rfl, rfl, rfl⟩, rfl⟩
    | exact fun hcall ↦ absurd (by decide) hcall
    | exact fun _ hc ↦ absurd hc List.not_mem_nil

/-- So do the traps that are no call, or none that the dispatcher knows. -/
theorem dispatch_keeps (hf : ¬(f.scause = 8 ∧ f.a7 ∈ ([222, 56, 63, 57] : List UInt32)))
    (info : Stage0Info) (time : UInt64) (g : Stage0) (m : Mem) :
    SameFile g ((xnuStage0UserTrapDispatch info time g f).val m).1 ∧
      ((xnuStage0UserTrapDispatch info time g f).val m).1.mmapNext = g.mmapNext := by
  have hunexpected : ((unexpectedTrap info time (g.enter f) f).val m).1 = g.enter f := by
    simp [unexpectedTrap]
  rw [xnuStage0UserTrapDispatch]
  split_ifs with hcause
  · rcases hlookup : syscalls.lookup f.a7 with - | handler
    · rw [Option.getD_none, hunexpected]
      exact ⟨⟨rfl, rfl, rfl⟩, rfl⟩
    · obtain ⟨before, after, heq, -⟩ := List.lookup_eq_some_iff.mp hlookup
      have hmem : (f.a7, handler) ∈ syscalls := heq ▸ List.mem_append_right _ List.mem_cons_self
      exact (keeps_syscalls _ hmem (fun hcall ↦ hf ⟨hcause, hcall⟩) info time (g.enter f) f).val m
  · rw [hunexpected]
    exact ⟨⟨rfl, rfl, rfl⟩, rfl⟩

/-- The trap is a call of `mmap`. -/
def IsMmap (f : UserFrame) : Prop := f.scause = 8 ∧ f.a7 = 222
  deriving Decidable

/-- **Only `mmap` moves the front of its pages.** -/
theorem mmapNext_dispatch (hf : ¬IsMmap f) (info : Stage0Info) (time : UInt64) (g : Stage0)
    (m : Mem) : ((xnuStage0UserTrapDispatch info time g f).val m).1.mmapNext = g.mmapNext := by
  by_cases hfile : f.scause = 8 ∧ f.a7 ∈ ([222, 56, 63, 57] : List UInt32)
  · obtain ⟨hcause, hcall⟩ := hfile
    simp only [List.mem_cons, List.not_mem_nil, or_false] at hcall
    rcases hcall with hcall | hcall | hcall | hcall
    · exact absurd ⟨hcause, hcall⟩ hf
    · rw [xnuStage0UserTrapDispatch, if_pos hcause, hcall]
      change ((sysOpenat info time (g.enter f) f).val m).1.mmapNext = _
      simp only [sysOpenat, val_bind, val_pure]
      split <;> rfl
    · rw [xnuStage0UserTrapDispatch, if_pos hcause, hcall]
      change ((sysRead info time (g.enter f) f).val m).1.mmapNext = _
      simp only [sysRead, val_bind, val_pure]
      split_ifs <;> simp [Stage0.enter]
    · rw [xnuStage0UserTrapDispatch, if_pos hcause, hcall]
      change ((sysClose info time (g.enter f) f).val m).1.mmapNext = _
      simp only [sysClose, val_bind, val_pure]
      split_ifs <;> rfl
  · exact (dispatch_keeps hfile info time g m).2

theorem dispatch_mmap (hf : IsMmap f) (info : Stage0Info) (time : UInt64) (g : Stage0) :
    xnuStage0UserTrapDispatch info time g f = sysMmap info time (g.enter f) f := by
  rw [xnuStage0UserTrapDispatch, if_pos hf.1, hf.2]
  rfl

/-- `mmap` has room. -/
def MmapFits (g : Stage0) (f : UserFrame) : Prop :=
  linuxPageAlign f.a1 ≠ 0 ∧ linuxPageAlign f.a1 ≤ xnuStage0MmapLimit - g.mmapNext

theorem sysMmap_of_fits (h : MmapFits g f) (info : Stage0Info) (time : UInt64) (m : Mem) :
    (sysMmap info time g f).val m =
        ({ g with mmapNext := g.mmapNext + linuxPageAlign f.a1 }, some (f.ret g.mmapNext)) ∧
      (sysMmap info time g f).mem m =
        writeBytes m g.mmapNext (linuxPageAlign f.a1).toNat fun _ ↦ 0 := by
  rw [MmapFits] at h
  have hzero : (linuxZeroUser g.mmapNext (linuxPageAlign f.a1)).mem m =
      writeBytes m g.mmapNext (linuxPageAlign f.a1).toNat fun _ ↦ 0 := by
    have hlen : (List.replicate (linuxPageAlign f.a1).toNat (0 : UInt8)).length ≤ 4294967296 := by
      rw [List.length_replicate]
      exact (linuxPageAlign f.a1).toNat_lt.le
    rw [linuxZeroUser, mem_storeAll _ hlen, List.length_replicate]
    congr 1
    funext k
    rw [List.getD_eq_getElem?_getD, List.getElem?_replicate]
    split <;> rfl
  simp only [sysMmap, if_pos h]
  simp [hzero]

theorem sysMmap_of_not_fits (h : ¬MmapFits g f) (info : Stage0Info) (time : UInt64) (m : Mem) :
    (sysMmap info time g f).val m = (g, some (f.ret (linuxErrno linuxEnomem))) ∧
      (sysMmap info time g f).mem m = m := by
  rw [MmapFits] at h
  simp only [sysMmap, if_neg h]
  simp

theorem mmapInRange_dispatch (info : Stage0Info) (time : UInt64) (f : UserFrame) (m : Mem)
    (hg : MmapInRange g.mmapNext) :
    MmapInRange ((xnuStage0UserTrapDispatch info time g f).val m).1.mmapNext := by
  by_cases hf : IsMmap f
  · rw [dispatch_mmap hf]
    by_cases hfits : MmapFits (g.enter f) f
    · obtain ⟨hsum, hle⟩ := toNat_add_of_fits hg.2 (UInt32.not_lt.mpr hfits.2)
      have hbase := UInt32.le_iff_toNat_le.mp hg.1
      rw [(sysMmap_of_fits hfits info time m).1]
      refine ⟨UInt32.le_iff_toNat_le.mpr ?_, hle⟩
      exact hbase.trans (hsum ▸ Nat.le_add_right _ _)
    · rw [(sysMmap_of_not_fits hfits info time m).1]
      exact hg
  · rw [mmapNext_dispatch hf]
    exact hg

/-! ## Confinement -/

/-- The region of the user program. -/
def InUserRegion (x : UInt32) : Prop := InBlock xnuStage0UserBase xnuStage0UserRegionSize.toNat x

/-- The trap stays inside the user region: it touches nothing else, and of the memory outside nothing
is changed and nothing can be seen in what is printed. -/
structure Confined (info : Stage0Info) (time : UInt64) (g : Stage0) (f : UserFrame) (m : Mem) :
    Prop where
  touches : ∀ x ∈ (xnuStage0UserTrapDispatch info time g f).touches m, InUserRegion x
  mem : SameOutside InUserRegion m ((xnuStage0UserTrapDispatch info time g f).mem m)
  out : ∀ m', (∀ x, InUserRegion x → m' x = m x) →
    (xnuStage0UserTrapDispatch info time g f).out m' =
      (xnuStage0UserTrapDispatch info time g f).out m

/-- The pointers that come with the frame, directly or in an iovec. -/
def framePointers : Operands := fun g f m ↦ if f.a7 = 222 then [] else trapOperands g f m

/-- A block in the user region: what `linux_user_range` tests, for a block that is not empty. -/
def InUserRange (r : UInt32 × ℕ) : Prop :=
  r.2 = 0 ∨ 0x81000000 ≤ r.1.toNat ∧ r.1.toNat + r.2 ≤ 0x81400000
  deriving Decidable

/-- All pointers of the frame are inside the user region, with what is read or written there. -/
def PointersInRange (g : Stage0) (f : UserFrame) (m : Mem) : Prop :=
  ∀ r ∈ framePointers g f m, InUserRange r

theorem forall_inUserRegion_iff (r : UInt32 × ℕ) :
    (∀ x, InBlock r.1 r.2 x → InUserRegion x) ↔ InUserRange r :=
  forall_inBlock_iff (by decide)

theorem confined_iff_touches (info : Stage0Info) (time : UInt64) (g : Stage0) (f : UserFrame)
    (m : Mem) : Confined info time g f m ↔ ∀ r ∈ trapOperands g f m, InUserRange r := by
  have htouches := meets_xnuStage0UserTrapDispatch info time g f m
  constructor
  · intro h r hr
    rw [← forall_inUserRegion_iff]
    exact fun x hx ↦ h.touches x ((htouches x).mpr ⟨r, hr, hx⟩)
  · intro h
    have hinside : ∀ x ∈ (xnuStage0UserTrapDispatch info time g f).touches m, InUserRegion x := by
      intro x hx
      obtain ⟨r, hr, hx⟩ := (htouches x).mp hx
      exact (forall_inUserRegion_iff r).mpr (h r hr) x hx
    refine ⟨hinside, (sameOutside_mem _ m).mono hinside, fun m' hm' ↦ ?_⟩
    exact (agrees_of_touches fun x hx ↦ hm' x (hinside x hx)).out

theorem mmapOperands_inUserRange (hg : MmapInRange g.mmapNext) (f : UserFrame) (m : Mem) :
    ∀ r ∈ mmapOperands g f m, InUserRange r := by
  intro r hr
  obtain ⟨hbase, hlimit⟩ := hg
  rw [mmapOperands] at hr
  split_ifs at hr with hfits
  · obtain rfl := List.mem_singleton.mp hr
    obtain ⟨hsum, hle⟩ := toNat_add_of_fits hlimit (UInt32.not_lt.mpr hfits.2)
    rw [UInt32.le_iff_toNat_le] at hbase hle
    rw [hsum] at hle
    refine .inr ⟨?_, hle⟩
    exact le_trans (by decide) hbase
  · exact absurd hr List.not_mem_nil

/-! ## Runs of user mode -/

/-- A trap from user mode: the time, and the frame and the memory as user mode has left them. -/
structure UserTrap where
  time : UInt64
  frame : UserFrame
  mem : Mem

/-- The kernel's variables after a trap, unless the hart has been parked. -/
def trapStep (info : Stage0Info) (g : Stage0) (t : UserTrap) : Option Stage0 :=
  let r := (xnuStage0UserTrapDispatch info t.time g t.frame).val t.mem
  r.2.map fun _ ↦ r.1

/-- The pages for `mmap` stay in their range over whole runs. -/
theorem mmapInRange_of_reachable {info : Stage0Info} {ok : Stage0 → UserTrap → Prop}
    {lastScause lastSepc lastStval : UInt32}
    (h : Runs.Reachable (trapStep info) ok (.initial lastScause lastSepc lastStval) g) :
    MmapInRange g.mmapNext := by
  apply h.invariant
  · exact (by decide : MmapInRange 0x81004000)
  · intro s t a hs _ hstep
    obtain ⟨_, _, rfl⟩ := Option.map_eq_some_iff.mp hstep
    exact mmapInRange_dispatch info a.time a.frame a.mem hs

/-- A trap for `mmap` has no other operand than the pages that it clears. -/
theorem trapOperands_mmap (hg : MmapInRange g.mmapNext) (hf : f.a7 = 222) (m : Mem) :
    ∀ r ∈ trapOperands g f m, InUserRange r := by
  have hlookup : operands.lookup 222 = some mmapOperands := rfl
  rw [trapOperands, hf, hlookup]
  split_ifs
  · exact mmapOperands_inUserRange hg f m
  · exact fun r hr ↦ absurd hr List.not_mem_nil

theorem confined_iff_of_mmapInRange (hg : MmapInRange g.mmapNext) (info : Stage0Info)
    (time : UInt64) (f : UserFrame) (m : Mem) :
    Confined info time g f m ↔ PointersInRange g f m := by
  rw [confined_iff_touches, PointersInRange, framePointers]
  split_ifs with hmmap
  · exact iff_of_true (trapOperands_mmap hg hmmap m) fun r hr ↦ absurd hr List.not_mem_nil
  · rfl

/-- **Confinement.** In a run of user mode in which every trap has had its pointers in the user
region, the next trap is confined to that region exactly when its pointers are in it too. -/
theorem confined_iff_pointersInRange {info : Stage0Info} {g : Stage0}
    {lastScause lastSepc lastStval : UInt32}
    (h : Runs.Reachable (trapStep info) (fun g t ↦ PointersInRange g t.frame t.mem)
      (.initial lastScause lastSepc lastStval) g) (time : UInt64) (f : UserFrame) (m : Mem) :
    Confined info time g f m ↔ PointersInRange g f m :=
  confined_iff_of_mmapInRange (mmapInRange_of_reachable h) info time f m

/-- A frame for a system call with up to four arguments. -/
def ecall (number a0 a1 a2 a3 : UInt32) : UserFrame where
  a0
  a1
  a2
  a3
  a4 := 0
  a7 := number
  sepc := xnuStage0UserBase
  scause := 8
  stval := 0

/-- Writing a buffer of the user program is confined. -/
theorem confined_iff_pointersInRange_write :
    PointersInRange (.initial 0 0 0) (ecall 64 1 0x81000000 5 0) (fun _ ↦ 65) ∧
      Confined ⟨0, 0⟩ 0 (.initial 0 0 0) (ecall 64 1 0x81000000 5 0) fun _ ↦ 65 := by
  have hrange : PointersInRange (.initial 0 0 0) (ecall 64 1 0x81000000 5 0) (fun _ ↦ 65) := by
    rw [PointersInRange]
    decide
  exact ⟨hrange, (confined_iff_pointersInRange .start 0 _ _).mpr hrange⟩

/-- In the first trap already, `rt_sigaction` clears 16 bytes of the kernel when `oldact` points
there, and `write` prints a byte of the kernel. -/
theorem kernel_memory_reached :
    (xnuStage0UserTrapDispatch ⟨0, 0⟩ 0 (.initial 0 0 0) (ecall 134 1 0 0x80400000 0)).mem
        (fun _ ↦ 1) 0x80400000 = 0 ∧
      (xnuStage0UserTrapDispatch ⟨0, 0⟩ 0 (.initial 0 0 0) (ecall 64 1 0x80400000 1 0)).out
        (fun _ ↦ 65) ≠
      (xnuStage0UserTrapDispatch ⟨0, 0⟩ 0 (.initial 0 0 0) (ecall 64 1 0x80400000 1 0)).out
        (fun x ↦ if x = 0x80400000 then 66 else 65) ∧
      ¬Confined ⟨0, 0⟩ 0 (.initial 0 0 0) (ecall 134 1 0 0x80400000 0) (fun _ ↦ 1) := by
  refine ⟨by decide, by decide, ?_⟩
  rw [confined_iff_touches]
  decide

end CaribeOS
