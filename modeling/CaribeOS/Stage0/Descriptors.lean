import CaribeOS.Stage0.Confinement
import Mathlib.Data.Nat.Bitwise

/-!
# File descriptors

The kernel has one descriptor for the files of `/proc` and one for the directory itself, and a few
variables for each: whether it is open, which file it is open for, and the offset. A caller sees
descriptors: what each was opened for, and what has been read from it since.

We follow the caller's view beside the kernel's variables. They agree as long as nothing is opened
whose descriptor is open already. `openat` does not look at that: it gives the same descriptor again.
-/

namespace CaribeOS

open ByteMemory ByteProgram
open Prog hiding ret

/-! ## The caller's view -/

/-- An open descriptor: what it was opened for, and the counts of the reads since. -/
structure Descriptor where
  target : ProcTarget
  reads : List UInt32

/-- The kernel's variables and the open descriptors. -/
structure DescriptorRun where
  kernel : Stage0
  table : UInt32 → Option Descriptor

/-- The calls in question: `openat`, `getdents64`, `read`, `fstat64` and `close`. -/
def IsFileCall (f : UserFrame) : Prop := f.scause = 8 ∧ f.a7 ∈ ([56, 61, 63, 80, 57] : List UInt32)
  deriving Decidable

/-- What a path names of `/proc`. -/
def openTarget (m : Mem) (path : UInt32) : Option ProcTarget :=
  if path ≠ 0 then (userStreqCase path openatCases).val m else none

/-- The descriptor for it. -/
def descriptorOf : ProcTarget → UInt32
  | .file _ => xnuStage0ProcFd
  | .dir => xnuStage0ProcDirFd

/-- What the call returns in `a0`. -/
def returned (info : Stage0Info) (g : Stage0) (t : UserTrap) : UInt32 :=
  match ((xnuStage0UserTrapDispatch info t.time g t.frame).val t.mem).2 with
  | some f => f.a0
  | none => 0

def IsError (r : UInt32) : Prop := r &&& 0x80000000 ≠ 0
  deriving Decidable

/-- The descriptors after a call, by what the call returned. -/
def tableAfter (info : Stage0Info) (s : DescriptorRun) (t : UserTrap) :
    UInt32 → Option Descriptor :=
  if IsError (returned info s.kernel t) then s.table
  else if t.frame.a7 = 56 then
    Function.update s.table (returned info s.kernel t)
      ((openTarget t.mem t.frame.a1).map fun target ↦ ⟨target, []⟩)
  else if t.frame.a7 = 63 then
    Function.update s.table t.frame.a0
      ((s.table t.frame.a0).map fun d ↦ { d with reads := d.reads ++ [t.frame.a2] })
  else if t.frame.a7 = 57 then Function.update s.table t.frame.a0 none
  else s.table

def descriptorStep (info : Stage0Info) (s : DescriptorRun) (t : UserTrap) : Option DescriptorRun :=
  if IsFileCall t.frame then
    (trapStep info s.kernel t).map fun g ↦ ⟨g, tableAfter info s t⟩
  else none

/-- How far the reads have come in a file. -/
def delivered (file : UInt32) (reads : List UInt32) : ℕ :=
  reads.foldl (fun off c ↦ off + min c.toNat ((linuxProcFileContent file).length - off)) 0

/-- The bytes of the next read. -/
def nextBytes (file : UInt32) (reads : List UInt32) (count : UInt32) : List UInt8 :=
  ((linuxProcFileContent file).drop (delivered file reads)).take count.toNat

/-- Descriptors are independent in this call: an `openat` does not return one that is open, and a
`read` delivers what comes next in the file that its descriptor was opened for. -/
structure Independent (info : Stage0Info) (s : DescriptorRun) (t : UserTrap) : Prop where
  opened : t.frame.a7 = 56 → ¬IsError (returned info s.kernel t) →
    s.table (returned info s.kernel t) = none
  read : t.frame.a7 = 63 → t.frame.a1 ≠ 0 → ∀ file reads,
    s.table t.frame.a0 = some ⟨.file file, reads⟩ →
      (returned info s.kernel t).toNat = (nextBytes file reads t.frame.a2).length ∧
      ∀ k < (nextBytes file reads t.frame.a2).length,
        (xnuStage0UserTrapDispatch info t.time s.kernel t.frame).mem t.mem
          (t.frame.a1 + .ofNat k) = (nextBytes file reads t.frame.a2).getD k 0

/-- The call does not open anything whose descriptor is open. -/
def OpensClosed (s : DescriptorRun) (t : UserTrap) : Prop :=
  t.frame.a7 = 56 → ∀ target ∈ openTarget t.mem t.frame.a1, s.table (descriptorOf target) = none

/-! ## What the calls do -/

variable {f : UserFrame} {g : Stage0} {d : Option Descriptor}

theorem dispatch_call {h : Handler} (hf : f.scause = 8) (hcall : syscalls.lookup f.a7 = some h)
    (info : Stage0Info) (time : UInt64) (g : Stage0) :
    xnuStage0UserTrapDispatch info time g f = h info time (g.enter f) f := by
  rw [xnuStage0UserTrapDispatch, if_pos hf, hcall, Option.getD_some]

/-- The variables after `openat`, and what it returns. -/
def afterOpenat (g : Stage0) : Option ProcTarget → Stage0 × UInt32
  | some (.file number) =>
    ({ g with procOpen := 1, procOffset := 0, procFile := number }, xnuStage0ProcFd)
  | some .dir => ({ g with procDirOpen := 1, procDirOffset := 0 }, xnuStage0ProcDirFd)
  | none => (g, 0xfffffffe)

theorem val_sysOpenat (info : Stage0Info) (time : UInt64) (g : Stage0) (f : UserFrame) (m : Mem) :
    (sysOpenat info time g f).val m =
      ((afterOpenat g (openTarget m f.a1)).1,
        some (f.ret (afterOpenat g (openTarget m f.a1)).2)) := by
  have hhit : (if f.a1 ≠ 0 then userStreqCase f.a1 openatCases else pure none).val m =
      openTarget m f.a1 := by
    rw [openTarget]
    split_ifs <;> rfl
  simp only [sysOpenat, val_bind, mem_puts, mem_putDirfd, mem_putPath, hhit]
  rcases openTarget m f.a1 with - | number | - <;> rfl

/-- The variables after `close`, and what it returns. -/
def afterClose (g : Stage0) (fd : UInt32) : Stage0 × UInt32 :=
  if fd = xnuStage0ProcFd ∧ g.procOpen ≠ 0 then
    ({ g with procOpen := 0, procOffset := 0, procFile := 0 }, 0)
  else if fd = xnuStage0ProcDirFd ∧ g.procDirOpen ≠ 0 then
    ({ g with procDirOpen := 0, procDirOffset := 0 }, 0)
  else (g, 0xfffffff7)

theorem val_sysClose (info : Stage0Info) (time : UInt64) (g : Stage0) (f : UserFrame) (m : Mem) :
    (sysClose info time g f).val m =
      ((afterClose g f.a0).1, some (f.ret (afterClose g f.a0).2)) := by
  simp only [sysClose, val_bind, afterClose]
  rfl

theorem sysRead_of_open (h : f.a0 = xnuStage0ProcFd ∧ g.procOpen ≠ 0 ∧ f.a1 ≠ 0) (info : Stage0Info)
    (time : UInt64) (m : Mem) :
    (sysRead info time g f).val m =
        ({ g with procOffset := g.procOffset + readLength g f.a2 },
          some (f.ret (readLength g f.a2))) ∧
      (sysRead info time g f).mem m =
        (linuxCopyToUser f.a1 (((linuxProcFileContent g.procFile).drop g.procOffset.toNat).take
          (readLength g f.a2).toNat)).mem m := by
  simp only [sysRead, if_pos h]
  simp

theorem sysRead_of_not_open (h : ¬(f.a0 = xnuStage0ProcFd ∧ g.procOpen ≠ 0 ∧ f.a1 ≠ 0))
    (info : Stage0Info) (time : UInt64) (m : Mem) :
    (sysRead info time g f).val m = (g, some (f.ret 0xfffffff7)) := by
  simp only [sysRead, if_neg h]
  simp

/-- The call leaves alone what the descriptors of `/proc` are open for. -/
def KeepsOpen (h : Handler) : Prop :=
  ∀ info time g f, (h info time g f).Ends fun r ↦ r.1.procOpen = g.procOpen ∧
    r.1.procOffset = g.procOffset ∧ r.1.procFile = g.procFile ∧ r.1.procDirOpen = g.procDirOpen ∧
    r.2.isSome

theorem keepsOpen_sysGetdents64 : KeepsOpen sysGetdents64 := by
  intro info time g f
  repeat refine Ends.after fun _ ↦ ?_
  exact ⟨rfl, rfl, rfl, rfl, rfl⟩

theorem keepsOpen_sysFstat64 : KeepsOpen sysFstat64 := by
  intro info time g f
  repeat refine Ends.after fun _ ↦ ?_
  exact ⟨rfl, rfl, rfl, rfl, rfl⟩

theorem toNat_readLength (g : Stage0) (count : UInt32) :
    (readLength g count).toNat =
      min count.toNat ((linuxProcFileContent g.procFile).length - g.procOffset.toNat) := by
  have hsize := toNat_strlen_linuxProcFileContent g.procFile
  rw [readLength, ← hsize]
  generalize strlen (linuxProcFileContent g.procFile) = size
  have hleft : (if g.procOffset < size then size - g.procOffset else 0).toNat =
      size.toNat - g.procOffset.toNat := by
    split_ifs with hin
    · exact UInt32.toNat_sub_of_le _ _ (UInt32.le_of_lt hin)
    · rw [UInt32.lt_iff_toNat_lt] at hin
      rw [UInt32.toNat_zero]
      omega
  rw [← hleft]
  generalize (if g.procOffset < size then size - g.procOffset else 0) = left
  split_ifs with hlt <;> rw [UInt32.lt_iff_toNat_lt] at hlt <;> omega

theorem delivered_append (file : UInt32) (reads : List UInt32) (count : UInt32) :
    delivered file (reads ++ [count]) = delivered file reads +
      min count.toNat ((linuxProcFileContent file).length - delivered file reads) := by
  rw [delivered, List.foldl_append, ← delivered, List.foldl_cons, List.foldl_nil]

theorem delivered_le (file : UInt32) (reads : List UInt32) :
    delivered file reads ≤ (linuxProcFileContent file).length := by
  induction reads using List.reverseRecOn with
  | nil => exact Nat.zero_le _
  | append_singleton reads count ih =>
    rw [delivered_append]
    omega

/-! ## The kernel's variables and the descriptors -/

/-- The kernel's variables for the files of `/proc` say what the descriptor is open for, and how much
has been read. -/
def FileAgrees (g : Stage0) : Option Descriptor → Prop
  | none => g.procOpen = 0
  | some d => d.target = .file g.procFile ∧ g.procOpen ≠ 0 ∧
      g.procOffset.toNat = delivered g.procFile d.reads

/-- The same for the directory. -/
def DirAgrees (g : Stage0) : Option Descriptor → Prop
  | none => g.procDirOpen = 0
  | some d => d.target = .dir ∧ g.procDirOpen ≠ 0

/-- The kernel's variables agree with the descriptors. There are no others. -/
structure DescriptorInv (g : Stage0) (table : UInt32 → Option Descriptor) : Prop where
  file : FileAgrees g (table xnuStage0ProcFd)
  dir : DirAgrees g (table xnuStage0ProcDirFd)
  others : ∀ fd, fd ≠ xnuStage0ProcFd → fd ≠ xnuStage0ProcDirFd → table fd = none

variable {g' : Stage0} {info : Stage0Info} {s : DescriptorRun}

theorem FileAgrees.congr (h : FileAgrees g d) (hsame : SameFile g g') : FileAgrees g' d := by
  obtain ⟨hopen, hoffset, hfile⟩ := hsame
  rcases d with - | d
  · exact hopen.trans h
  · rw [FileAgrees, hopen, hoffset, hfile]
    exact h

theorem DirAgrees.congr (h : DirAgrees g d) (hsame : g'.procDirOpen = g.procDirOpen) :
    DirAgrees g' d := by
  rcases d with - | d
  · exact hsame.trans h
  · rw [DirAgrees, hsame]
    exact h

namespace DescriptorInv

variable {g g' : Stage0} {table : UInt32 → Option Descriptor}

theorem congr (h : DescriptorInv g table) (hfile : SameFile g g')
    (hdir : g'.procDirOpen = g.procDirOpen) : DescriptorInv g' table :=
  ⟨h.file.congr hfile, h.dir.congr hdir, h.others⟩

theorem updateFile (h : DescriptorInv g table) (hfile : FileAgrees g' d)
    (hdir : g'.procDirOpen = g.procDirOpen) :
    DescriptorInv g' (Function.update table xnuStage0ProcFd d) where
  file := by rwa [Function.update_self]
  dir := by
    exact h.dir.congr hdir
  others fd hne hne' := by rw [Function.update_of_ne hne, h.others fd hne hne']

theorem updateDir (h : DescriptorInv g table) (hfile : SameFile g g') (hdir : DirAgrees g' d) :
    DescriptorInv g' (Function.update table xnuStage0ProcDirFd d) where
  file := by
    exact h.file.congr hfile
  dir := by rwa [Function.update_self]
  others fd hne hne' := by rw [Function.update_of_ne hne', h.others fd hne hne']

end DescriptorInv

section Calls

variable {info : Stage0Info} {s : DescriptorRun} {t : UserTrap}

theorem openat_call (ht : t.frame.scause = 8) (hcall : t.frame.a7 = 56) (g : Stage0) :
    ((xnuStage0UserTrapDispatch info t.time g t.frame).val t.mem).1 =
        (afterOpenat (g.enter t.frame) (openTarget t.mem t.frame.a1)).1 ∧
      returned info g t = (afterOpenat (g.enter t.frame) (openTarget t.mem t.frame.a1)).2 := by
  have hlookup : syscalls.lookup t.frame.a7 = some sysOpenat := by rw [hcall]; rfl
  rw [returned, dispatch_call ht hlookup, val_sysOpenat]
  exact ⟨rfl, rfl⟩

theorem descriptorStep_openat (ht : t.frame.scause = 8) (hcall : t.frame.a7 = 56) :
    descriptorStep info s t =
      some ⟨(afterOpenat (s.kernel.enter t.frame) (openTarget t.mem t.frame.a1)).1,
        tableAfter info s t⟩ := by
  have hlookup : syscalls.lookup t.frame.a7 = some sysOpenat := by rw [hcall]; rfl
  have hfileCall : IsFileCall t.frame := ⟨ht, by rw [hcall]; decide⟩
  rw [descriptorStep, if_pos hfileCall, trapStep, dispatch_call ht hlookup, val_sysOpenat]
  rfl

/-- What `openat` returns is an error, or the descriptor of what it opened. -/
theorem returned_openat (ht : t.frame.scause = 8) (hcall : t.frame.a7 = 56) (g : Stage0) :
    (∃ target, openTarget t.mem t.frame.a1 = some target ∧
        returned info g t = descriptorOf target ∧ ¬IsError (returned info g t)) ∨
      (openTarget t.mem t.frame.a1 = none ∧ IsError (returned info g t)) := by
  rw [(openat_call ht hcall g).2]
  rcases openTarget t.mem t.frame.a1 with - | number | -
  · exact .inr ⟨rfl, (by decide : IsError 0xfffffffe)⟩
  · exact .inl ⟨_, rfl, rfl, (by decide : ¬IsError xnuStage0ProcFd)⟩
  · exact .inl ⟨_, rfl, rfl, (by decide : ¬IsError xnuStage0ProcDirFd)⟩

theorem read_call (ht : t.frame.scause = 8) (hcall : t.frame.a7 = 63) {g : Stage0}
    (hopen : t.frame.a0 = xnuStage0ProcFd ∧ g.procOpen ≠ 0 ∧ t.frame.a1 ≠ 0) :
    ((xnuStage0UserTrapDispatch info t.time g t.frame).val t.mem).1 =
        { g.enter t.frame with procOffset := g.procOffset + readLength g t.frame.a2 } ∧
      returned info g t = readLength g t.frame.a2 ∧
      (xnuStage0UserTrapDispatch info t.time g t.frame).mem t.mem =
        (linuxCopyToUser t.frame.a1 (((linuxProcFileContent g.procFile).drop
          g.procOffset.toNat).take (readLength g t.frame.a2).toNat)).mem t.mem := by
  have hlookup : syscalls.lookup t.frame.a7 = some sysRead := by rw [hcall]; rfl
  have hopen' : t.frame.a0 = xnuStage0ProcFd ∧ (g.enter t.frame).procOpen ≠ 0 ∧ t.frame.a1 ≠ 0 :=
    hopen
  obtain ⟨hval, hmem⟩ := sysRead_of_open hopen' info t.time t.mem
  rw [returned, dispatch_call ht hlookup, hval, hmem]
  exact ⟨rfl, rfl, rfl⟩

theorem read_call_of_not_open (ht : t.frame.scause = 8) (hcall : t.frame.a7 = 63) {g : Stage0}
    (hopen : ¬(t.frame.a0 = xnuStage0ProcFd ∧ g.procOpen ≠ 0 ∧ t.frame.a1 ≠ 0)) :
    ((xnuStage0UserTrapDispatch info t.time g t.frame).val t.mem).1 = g.enter t.frame ∧
      IsError (returned info g t) := by
  have hlookup : syscalls.lookup t.frame.a7 = some sysRead := by rw [hcall]; rfl
  have hopen' : ¬(t.frame.a0 = xnuStage0ProcFd ∧ (g.enter t.frame).procOpen ≠ 0 ∧
      t.frame.a1 ≠ 0) := hopen
  rw [returned, dispatch_call ht hlookup, sysRead_of_not_open hopen' info t.time t.mem]
  exact ⟨rfl, (by decide : IsError 0xfffffff7)⟩

end Calls

section Steps

variable {info : Stage0Info} {s : DescriptorRun} {t : UserTrap}

/-- The invariant after a call. -/
def InvAfter (info : Stage0Info) (s : DescriptorRun) (t : UserTrap) : Prop :=
  DescriptorInv ((xnuStage0UserTrapDispatch info t.time s.kernel t.frame).val t.mem).1
    (tableAfter info s t)

theorem invAfter_openat (h : DescriptorInv s.kernel s.table) (ht : t.frame.scause = 8)
    (hcall : t.frame.a7 = 56) : InvAfter info s t := by
  rw [InvAfter, (openat_call ht hcall s.kernel).1, tableAfter]
  rcases @returned_openat info t ht hcall s.kernel with
    ⟨target, htarget, hfd, herror⟩ | ⟨hnone, herror⟩
  · rw [if_neg herror, if_pos hcall, hfd, htarget, Option.map_some]
    rcases target with number | -
    · exact h.updateFile ⟨rfl, (by decide : (1 : UInt32) ≠ 0), rfl⟩ rfl
    · exact h.updateDir ⟨rfl, rfl, rfl⟩ ⟨rfl, (by decide : (1 : UInt32) ≠ 0)⟩
  · rw [if_pos herror, hnone]
    exact h.congr ⟨rfl, rfl, rfl⟩ rfl

/-- A count of bytes of a file is not an error. -/
theorem not_isError_of_lt {r : UInt32} (h : r.toNat < 2 ^ 31) : ¬IsError r := by
  rw [IsError, not_not, ← UInt32.toNat_inj, UInt32.toNat_and, UInt32.toNat_zero,
    show UInt32.toNat 0x80000000 = 2 ^ 31 from rfl, Nat.and_two_pow, Nat.testBit_lt_two_pow h]
  rfl

theorem not_isError_readLength (g : Stage0) (count : UInt32) : ¬IsError (readLength g count) := by
  have hlen : (linuxProcFileContent g.procFile).length < 2 ^ 31 := by
    rw [linuxProcFileContent]
    split_ifs <;> decide +kernel
  apply not_isError_of_lt
  rw [toNat_readLength]
  omega

theorem invAfter_read (h : DescriptorInv s.kernel s.table) (ht : t.frame.scause = 8)
    (hcall : t.frame.a7 = 63) : InvAfter info s t := by
  by_cases hopen : t.frame.a0 = xnuStage0ProcFd ∧ s.kernel.procOpen ≠ 0 ∧ t.frame.a1 ≠ 0
  · obtain ⟨hval, hreturned, -⟩ := @read_call info t ht hcall s.kernel hopen
    rw [InvAfter, hval, tableAfter, hreturned, if_neg (not_isError_readLength _ _),
      if_neg (by rw [hcall]; decide), if_pos hcall, hopen.1]
    refine h.updateFile ?_ rfl
    have hfile := h.file
    rcases hd : s.table xnuStage0ProcFd with - | d
    · rw [hd] at hfile
      exact absurd hfile hopen.2.1
    · rw [hd] at hfile
      obtain ⟨htarget, -, hoffset⟩ := hfile
      refine ⟨htarget, hopen.2.1, ?_⟩
      have hle := delivered_le s.kernel.procFile d.reads
      have hlen := length_linuxProcFileContent s.kernel.procFile
      rw [delivered_append, UInt32.toNat_add, toNat_readLength, hoffset]
      exact Nat.mod_eq_of_lt (by omega)
  · obtain ⟨hval, herror⟩ := @read_call_of_not_open info t ht hcall s.kernel hopen
    rw [InvAfter, hval, tableAfter, if_pos herror]
    exact h.congr ⟨rfl, rfl, rfl⟩ rfl

theorem invAfter_close (h : DescriptorInv s.kernel s.table) (ht : t.frame.scause = 8)
    (hcall : t.frame.a7 = 57) : InvAfter info s t := by
  have hlookup : syscalls.lookup t.frame.a7 = some sysClose := by rw [hcall]; rfl
  have hval : ((xnuStage0UserTrapDispatch info t.time s.kernel t.frame).val t.mem).1 =
      (afterClose (s.kernel.enter t.frame) t.frame.a0).1 := by
    rw [dispatch_call ht hlookup, val_sysClose]
  have hreturned : returned info s.kernel t =
      (afterClose (s.kernel.enter t.frame) t.frame.a0).2 := by
    rw [returned, dispatch_call ht hlookup, val_sysClose]
    rfl
  have hclosed : t.frame.a7 ≠ 56 ∧ t.frame.a7 ≠ 63 := by
    rw [hcall]
    decide
  rw [InvAfter, hval, tableAfter, hreturned, if_neg hclosed.1, if_neg hclosed.2, if_pos hcall,
    afterClose]
  split
  case isTrue hfile =>
    rw [if_neg (by decide : ¬IsError 0), hfile.1]
    exact h.updateFile rfl rfl
  case isFalse =>
    split
    case isTrue hdir =>
      rw [if_neg (by decide : ¬IsError 0), hdir.1]
      exact h.updateDir ⟨rfl, rfl, rfl⟩ rfl
    case isFalse =>
      rw [if_pos (by decide : IsError 0xfffffff7)]
      exact h.congr ⟨rfl, rfl, rfl⟩ rfl

/-- A call that keeps the variables for the descriptors keeps the descriptors. -/
theorem invAfter_of_keepsOpen {handler : Handler} (hkeeps : KeepsOpen handler)
    (h : DescriptorInv s.kernel s.table) (ht : t.frame.scause = 8)
    (hlookup : syscalls.lookup t.frame.a7 = some handler) (hopenat : t.frame.a7 ≠ 56)
    (hread : t.frame.a7 ≠ 63) (hclose : t.frame.a7 ≠ 57) : InvAfter info s t := by
  have htable : tableAfter info s t = s.table := by
    rw [tableAfter, if_neg hopenat, if_neg hread, if_neg hclose, ite_self]
  obtain ⟨hopen, hoffset, hfile, hdir, -⟩ :=
    (hkeeps info t.time (s.kernel.enter t.frame) t.frame).val t.mem
  rw [InvAfter, htable, dispatch_call ht hlookup]
  exact h.congr ⟨hopen, hoffset, hfile⟩ hdir

theorem invAfter (h : DescriptorInv s.kernel s.table) (ht : IsFileCall t.frame) :
    InvAfter info s t := by
  obtain ⟨hcause, hcall⟩ := ht
  simp only [List.mem_cons, List.not_mem_nil, or_false] at hcall
  rcases hcall with hcall | hcall | hcall | hcall | hcall
  · exact invAfter_openat h hcause hcall
  · exact invAfter_of_keepsOpen keepsOpen_sysGetdents64 h hcause (by rw [hcall]; rfl)
      (by rw [hcall]; decide) (by rw [hcall]; decide) (by rw [hcall]; decide)
  · exact invAfter_read h hcause hcall
  · exact invAfter_of_keepsOpen keepsOpen_sysFstat64 h hcause (by rw [hcall]; rfl)
      (by rw [hcall]; decide) (by rw [hcall]; decide) (by rw [hcall]; decide)
  · exact invAfter_close h hcause hcall

end Steps

theorem descriptorInv_of_reachable {ok : DescriptorRun → UserTrap → Prop}
    {lastScause lastSepc lastStval : UInt32} (h : Runs.Reachable (descriptorStep info) ok
      ⟨.initial lastScause lastSepc lastStval, fun _ ↦ none⟩ s) :
    DescriptorInv s.kernel s.table := by
  apply h.invariant fun s ↦ DescriptorInv s.kernel s.table
  · exact ⟨rfl, rfl, fun _ _ _ ↦ rfl⟩
  · intro s s' t hs _ hstep
    rw [descriptorStep] at hstep
    split at hstep
    case isTrue ht =>
      obtain ⟨g, hg, rfl⟩ := Option.map_eq_some_iff.mp hstep
      obtain ⟨_, _, rfl⟩ := Option.map_eq_some_iff.mp hg
      exact invAfter hs ht
    case isFalse => exact absurd hstep (by simp)

/-! ## Independence -/

theorem length_nextBytes (file : UInt32) (reads : List UInt32) (count : UInt32) :
    (nextBytes file reads count).length =
      min count.toNat ((linuxProcFileContent file).length - delivered file reads) := by
  rw [nextBytes, List.length_take, List.length_drop]

theorem read_delivers {t : UserTrap} (h : DescriptorInv s.kernel s.table) (ht : t.frame.scause = 8)
    (hcall : t.frame.a7 = 63) (hnull : t.frame.a1 ≠ 0) {file : UInt32} {reads : List UInt32}
    (hd : s.table t.frame.a0 = some ⟨.file file, reads⟩) :
    (returned info s.kernel t).toNat = (nextBytes file reads t.frame.a2).length ∧
      ∀ k < (nextBytes file reads t.frame.a2).length,
        (xnuStage0UserTrapDispatch info t.time s.kernel t.frame).mem t.mem
          (t.frame.a1 + .ofNat k) = (nextBytes file reads t.frame.a2).getD k 0 := by
  -- The descriptor of the directory is not open for a file, and there are only the two.
  have hfd : t.frame.a0 = xnuStage0ProcFd := by
    by_contra hne
    by_cases hdirfd : t.frame.a0 = xnuStage0ProcDirFd
    · have hdir := h.dir
      rw [← hdirfd, hd] at hdir
      exact absurd hdir.1 (by simp)
    · rw [h.others _ hne hdirfd] at hd
      exact absurd hd (by simp)
  have hagrees := h.file
  rw [← hfd, hd] at hagrees
  obtain ⟨htarget, hopen, hoffset⟩ := hagrees
  obtain rfl : file = s.kernel.procFile := ProcTarget.file.inj htarget
  obtain ⟨-, hreturned, hmem⟩ := @read_call info t ht hcall s.kernel ⟨hfd, hopen, hnull⟩
  have hlength : (returned info s.kernel t).toNat =
      (nextBytes s.kernel.procFile reads t.frame.a2).length := by
    rw [hreturned, toNat_readLength, length_nextBytes, hoffset]
  have hbytes : ((linuxProcFileContent s.kernel.procFile).drop s.kernel.procOffset.toNat).take
      (readLength s.kernel t.frame.a2).toNat = nextBytes s.kernel.procFile reads t.frame.a2 := by
    rw [nextBytes, toNat_readLength, hoffset, ← List.length_drop, ← List.take_eq_take_min]
  refine ⟨hlength, fun k hk ↦ ?_⟩
  have hlt := (returned info s.kernel t).toNat_lt
  rw [hmem, hbytes, linuxCopyToUser, mem_storeAll _ (by omega), writeBytes_add _ _ _ hk (by omega)]

/-- **Independent descriptors.** In a run in which nothing has been opened whose descriptor was open,
the descriptors are independent in the next call exactly if that does not open such a thing either. -/
theorem descriptors_independent_iff {info : Stage0Info} {s : DescriptorRun}
    {lastScause lastSepc lastStval : UInt32}
    (h : Runs.Reachable (descriptorStep info) OpensClosed
      ⟨.initial lastScause lastSepc lastStval, fun _ ↦ none⟩ s) {t : UserTrap}
    (ht : IsFileCall t.frame) : Independent info s t ↔ OpensClosed s t := by
  have hinv := descriptorInv_of_reachable h
  constructor
  · intro hind hcall target htarget
    rcases @returned_openat info t ht.1 hcall s.kernel with
      ⟨target', htarget', hfd, herror⟩ | ⟨hnone, -⟩
    · have heq : target' = target := Option.some.inj (htarget'.symm.trans htarget)
      rw [← heq, ← hfd]
      exact hind.opened hcall herror
    · exact absurd (hnone.symm.trans htarget) (by simp)
  · intro hclosed
    refine ⟨fun hcall herror ↦ ?_, fun hcall hnull file reads hd ↦
      read_delivers hinv ht.1 hcall hnull hd⟩
    rcases @returned_openat info t ht.1 hcall s.kernel with
      ⟨target, htarget, hfd, -⟩ | ⟨-, herror'⟩
    · rw [hfd]
      exact hclosed hcall target htarget
    · exact absurd herror' herror

/-- A call of `openat` with a path in the user region. -/
def openatPath (path : String) : UserTrap where
  time := 0
  frame := ecall 56 linuxAtFdcwd 0x81000000 0 0
  mem x := (cString path).getD (x - 0x81000000).toNat 0

theorem version_opened :
    ∃ s, descriptorStep ⟨0, 0⟩ ⟨.initial 0 0 0, fun _ ↦ none⟩ (openatPath "/proc/version") = some s ∧
      s.table = Function.update (fun _ ↦ none) xnuStage0ProcFd (some ⟨.file 1, []⟩) := by
  have hversion : openTarget (openatPath "/proc/version").mem 0x81000000 = some (.file 1) := by
    decide
  have hreturned : returned ⟨0, 0⟩ (.initial 0 0 0) (openatPath "/proc/version") =
      xnuStage0ProcFd := by
    rw [(openat_call rfl rfl _).2]
    exact congrArg (fun target ↦ (afterOpenat _ target).2) hversion
  have hcall : (openatPath "/proc/version").frame.a7 = 56 := rfl
  refine ⟨_, descriptorStep_openat rfl rfl, ?_⟩
  dsimp only
  rw [tableAfter, hreturned, if_neg (by decide), if_pos hcall]
  exact congrArg (Function.update (fun _ ↦ none) xnuStage0ProcFd) (congrArg (Option.map _) hversion)

/-- While `/proc/version` is open, the directory can be opened. -/
theorem descriptors_independent_directory :
    ∃ s, descriptorStep ⟨0, 0⟩ ⟨.initial 0 0 0, fun _ ↦ none⟩ (openatPath "/proc/version") = some s ∧
      s.table xnuStage0ProcFd = some ⟨.file 1, []⟩ ∧ OpensClosed s (openatPath "/proc") ∧
      Independent ⟨0, 0⟩ s (openatPath "/proc") := by
  obtain ⟨s, hstep, htable⟩ := version_opened
  have hproc : openTarget (openatPath "/proc").mem 0x81000000 = some .dir := by decide
  have hclosed : OpensClosed s (openatPath "/proc") := by
    intro _ target htarget
    obtain rfl : .dir = target := Option.some.inj (hproc.symm.trans htarget)
    rw [htable]
    decide
  refine ⟨s, hstep, ?_, hclosed, (descriptors_independent_iff (.next .start ?_ hstep) ?_).mpr hclosed⟩
  · rw [htable, Function.update_self]
  · exact fun _ _ _ ↦ rfl
  · decide

/-- When `/proc/version` has been opened and not closed, opening `/proc/cpuinfo` returns the same
descriptor, which is then open for the other file. -/
theorem descriptor_returned_twice :
    ∃ s, descriptorStep ⟨0, 0⟩ ⟨.initial 0 0 0, fun _ ↦ none⟩ (openatPath "/proc/version") = some s ∧
      s.table xnuStage0ProcFd = some ⟨.file 1, []⟩ ∧
      returned ⟨0, 0⟩ s.kernel (openatPath "/proc/cpuinfo") = xnuStage0ProcFd ∧
      ∃ s', descriptorStep ⟨0, 0⟩ s (openatPath "/proc/cpuinfo") = some s' ∧
        s'.kernel.procFile = 2 := by
  obtain ⟨s, hstep, htable⟩ := version_opened
  have hcpuinfo : openTarget (openatPath "/proc/cpuinfo").mem 0x81000000 = some (.file 2) := by
    decide
  refine ⟨s, hstep, ?_, ?_, _, descriptorStep_openat rfl rfl, ?_⟩
  · rw [htable, Function.update_self]
  · rw [(openat_call rfl rfl _).2]
    exact congrArg (fun target ↦ (afterOpenat _ target).2) hcpuinfo
  · exact congrArg (fun target ↦ (afterOpenat _ target).1.procFile) hcpuinfo

end CaribeOS
