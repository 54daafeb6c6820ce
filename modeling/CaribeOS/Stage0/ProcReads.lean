import CaribeOS.Stage0.Descriptors

/-!
# Reading a file of `/proc`

After a file of `/proc` has been opened, the program may make whatever system calls it likes, with
reads from the file among them. As long as it does not open or close anything, what the reads
return is the file from its beginning on.

The offset is the whole state that the reads share, and only three calls write to it: all the others
leave the variables for the files alone (`dispatch_sameFile`). So the bytes delivered so far
are as many as the offset says, and each read goes on from there.
-/

namespace CaribeOS

open ByteMemory ByteProgram ByteProgram.Prog

/-! ## The calls that do not concern the file -/

/-- The traps after which the file is open as before. -/
theorem dispatch_sameFile {f : UserFrame}
    (hf : ¬(f.scause = 8 ∧ f.a7 ∈ ([56, 63, 57] : List UInt32))) (info : Stage0Info)
    (time : UInt64) (g : Stage0) (m : Mem) :
    SameFile g ((xnuStage0UserTrapDispatch info time g f).val m).1 := by
  by_cases hmmap : IsMmap f
  · rw [dispatch_mmap hmmap]
    by_cases hfits : MmapFits (g.enter f) f
    · rw [(sysMmap_of_fits hfits info time m).1]
      exact ⟨rfl, rfl, rfl⟩
    · rw [(sysMmap_of_not_fits hfits info time m).1]
      exact ⟨rfl, rfl, rfl⟩
  · refine (dispatch_keeps (fun h ↦ ?_) info time g m).1
    exact (List.mem_cons.mp h.2).elim (fun hcall ↦ hmmap ⟨h.1, hcall⟩) fun hcall ↦ hf ⟨h.1, hcall⟩

/-! ## The reads -/

/-- The kernel's variables after a call. -/
def kernelAfter (info : Stage0Info) (g : Stage0) (t : UserTrap) : Stage0 :=
  ((xnuStage0UserTrapDispatch info t.time g t.frame).val t.mem).1

/-- The kernel's variables and what the reads have returned. -/
structure ProcRun where
  kernel : Stage0
  bytes : List UInt8

/-- A call of `read` on the descriptor for the files. -/
def IsProcRead (f : UserFrame) : Prop := f.scause = 8 ∧ f.a7 = 63 ∧ f.a0 = xnuStage0ProcFd
  deriving Decidable

/-- The bytes that a trap returns as read from the file: as many as the call says, in the caller's
buffer. -/
def readBytes (info : Stage0Info) (g : Stage0) (t : UserTrap) : List UInt8 :=
  if IsProcRead t.frame ∧ ¬IsError (returned info g t) then
    row ((xnuStage0UserTrapDispatch info t.time g t.frame).mem t.mem) t.frame.a1
      (returned info g t).toNat
  else []

/-- A trap that is not a call of `openat` or `close`. -/
def procStep (info : Stage0Info) (s : ProcRun) (t : UserTrap) : Option ProcRun :=
  if t.frame.scause = 8 ∧ t.frame.a7 ∈ ([56, 57] : List UInt32) then none
  else (trapStep info s.kernel t).map fun g ↦ ⟨g, s.bytes ++ readBytes info s.kernel t⟩

/-- The file is open, and what has been delivered is its beginning, as far as the offset says. -/
structure ProcInv (file : UInt32) (s : ProcRun) : Prop where
  isOpen : s.kernel.procOpen ≠ 0
  number : s.kernel.procFile = file
  delivered : s.bytes = (linuxProcFileContent file).take s.kernel.procOffset.toNat
  offset_le : s.kernel.procOffset.toNat ≤ (linuxProcFileContent file).length

namespace ProcInv

variable {info : Stage0Info} {file : UInt32} {s s' : ProcRun} {t : UserTrap}

theorem length_bytes (h : ProcInv file s) : s.bytes.length = s.kernel.procOffset.toNat := by
  rw [h.delivered, List.length_take, min_eq_left h.offset_le]

theorem congr (h : ProcInv file s) {g : Stage0} (hsame : SameFile s.kernel g) :
    ProcInv file ⟨g, s.bytes⟩ := by
  obtain ⟨hopen, hoffset, hfile⟩ := hsame
  exact ⟨hopen ▸ h.isOpen, hfile.trans h.number, hoffset ▸ h.delivered, hoffset ▸ h.offset_le⟩

theorem toNat_returned (h : ProcInv file s) (hread : IsProcRead t.frame) (hbuf : t.frame.a1 ≠ 0) :
    (returned info s.kernel t).toNat =
      min t.frame.a2.toNat ((linuxProcFileContent file).length - s.bytes.length) := by
  obtain ⟨hcause, hcall, hfd⟩ := hread
  rw [(@read_call info t hcause hcall s.kernel ⟨hfd, h.isOpen, hbuf⟩).2.1, toNat_readLength,
    h.number, h.length_bytes]

theorem readBytes_eq (h : ProcInv file s) (hread : IsProcRead t.frame) (hbuf : t.frame.a1 ≠ 0) :
    readBytes info s.kernel t =
      ((linuxProcFileContent file).drop s.kernel.procOffset.toNat).take
        (readLength s.kernel t.frame.a2).toNat := by
  obtain ⟨hcause, hcall, hfd⟩ := hread
  obtain ⟨-, hret, hmem⟩ := @read_call info t hcause hcall s.kernel ⟨hfd, h.isOpen, hbuf⟩
  have hsize : (((linuxProcFileContent file).drop s.kernel.procOffset.toNat).take
      (readLength s.kernel t.frame.a2).toNat).length = (readLength s.kernel t.frame.a2).toNat := by
    rw [List.length_take, List.length_drop, toNat_readLength, h.number]
    exact min_eq_left (min_le_right _ _)
  rw [readBytes, if_pos ⟨⟨hcause, hcall, hfd⟩, hret ▸ not_isError_readLength _ _⟩, hret, hmem,
    h.number, linuxCopyToUser]
  have hrow := row_mem_storeAll t.frame.a1 (hsize.trans_le
    (readLength s.kernel t.frame.a2).toNat_lt.le) t.mem
  rwa [hsize] at hrow

theorem step_read (h : ProcInv file s) (hread : IsProcRead t.frame) (hbuf : t.frame.a1 ≠ 0) :
    ProcInv file ⟨kernelAfter info s.kernel t, s.bytes ++ readBytes info s.kernel t⟩ := by
  have hbytes : readBytes info s.kernel t = _ := h.readBytes_eq hread hbuf
  obtain ⟨hcause, hcall, hfd⟩ := hread
  have hval := (@read_call info t hcause hcall s.kernel ⟨hfd, h.isOpen, hbuf⟩).1
  have hlen := toNat_readLength s.kernel t.frame.a2
  rw [h.number] at hlen
  have hle := h.offset_le
  have hsize := length_linuxProcFileContent file
  have hoffset : (s.kernel.procOffset + readLength s.kernel t.frame.a2).toNat =
      s.kernel.procOffset.toNat + (readLength s.kernel t.frame.a2).toNat := by
    rw [UInt32.toNat_add, Nat.mod_eq_of_lt (by omega)]
  rw [kernelAfter, hval, hbytes]
  refine ⟨h.isOpen, h.number, ?_, ?_⟩
  · change s.bytes ++ _ = List.take (s.kernel.procOffset + _).toNat _
    rw [hoffset, h.delivered, List.take_add]
  · change (s.kernel.procOffset + _).toNat ≤ _
    omega

theorem procStep_read (h : ProcInv file s) (info : Stage0Info) (hread : IsProcRead t.frame)
    (hbuf : t.frame.a1 ≠ 0) :
    procStep info s t =
      some ⟨kernelAfter info s.kernel t, s.bytes ++ readBytes info s.kernel t⟩ := by
  obtain ⟨hcause, hcall, hfd⟩ := hread
  have hlookup : syscalls.lookup t.frame.a7 = some sysRead := by rw [hcall]; rfl
  have hopen : (s.kernel.enter t.frame).procOpen ≠ 0 := h.isOpen
  have hother : ¬(t.frame.scause = 8 ∧ t.frame.a7 ∈ ([56, 57] : List UInt32)) := by
    rw [hcall]
    exact fun h' ↦ absurd h'.2 (by decide)
  rw [procStep, if_neg hother, trapStep, kernelAfter, dispatch_call hcause hlookup,
    (sysRead_of_open ⟨hfd, hopen, hbuf⟩ info t.time t.mem).1]
  rfl

theorem step (h : ProcInv file s) (hstep : procStep info s t = some s') : ProcInv file s' := by
  rw [procStep] at hstep
  split_ifs at hstep with hcall
  rw [trapStep, Option.map_map, Option.map_eq_some_iff] at hstep
  obtain ⟨frame, -, rfl⟩ := hstep
  change ProcInv file ⟨kernelAfter info s.kernel t, s.bytes ++ readBytes info s.kernel t⟩
  by_cases hread : t.frame.scause = 8 ∧ t.frame.a7 = 63
  · by_cases hopen : t.frame.a0 = xnuStage0ProcFd ∧ t.frame.a1 ≠ 0
    · exact h.step_read ⟨hread.1, hread.2, hopen.1⟩ hopen.2
    · -- a read that is refused
      obtain ⟨hval, herror⟩ := @read_call_of_not_open info t hread.1 hread.2 s.kernel
        fun h' ↦ hopen ⟨h'.1, h'.2.2⟩
      rw [readBytes, if_neg fun h' ↦ h'.2 herror, List.append_nil, kernelAfter, hval]
      exact h.congr ⟨rfl, rfl, rfl⟩
  · have hnone : readBytes info s.kernel t = [] := if_neg fun h' ↦ hread ⟨h'.1.1, h'.1.2.1⟩
    rw [hnone, List.append_nil]
    refine h.congr (dispatch_sameFile (fun hmem ↦ ?_) _ _ _ _)
    obtain ⟨hcause, hmem⟩ := hmem
    rw [List.mem_cons, List.mem_cons, List.mem_singleton] at hmem
    rcases hmem with h56 | h63 | h57
    · exact hcall ⟨hcause, by rw [h56]; exact List.mem_cons_self⟩
    · exact hread ⟨hcause, h63⟩
    · exact hcall ⟨hcause, by rw [h57]; exact List.mem_cons_of_mem _ List.mem_cons_self⟩

end ProcInv

/-- The trap opens that file. -/
def OpensFile (t : UserTrap) (file : UInt32) : Prop :=
  t.frame.scause = 8 ∧ t.frame.a7 = 56 ∧ openTarget t.mem t.frame.a1 = some (.file file)
  deriving Decidable

theorem procInv_of_opensFile {t : UserTrap} {file : UInt32} (h : OpensFile t file)
    (info : Stage0Info) (g : Stage0) : ProcInv file ⟨kernelAfter info g t, []⟩ := by
  obtain ⟨hcause, hcall, htarget⟩ := h
  have hval := (@openat_call info t hcause hcall g).1
  rw [htarget] at hval
  rw [kernelAfter, hval]
  exact ⟨(by decide : (1 : UInt32) ≠ 0), rfl, rfl, Nat.zero_le _⟩

/-- What the program can rely on after it has opened a file: the bytes delivered are the beginning
of the file, the offset is inside the file, a read returns what is asked for or what is left, and
nothing only if nothing is asked for or nothing is left. -/
structure DeliversFile (info : Stage0Info) (file : UInt32) (s : ProcRun) : Prop where
  isPrefix : s.bytes <+: linuxProcFileContent file
  offset_le : s.kernel.procOffset.toNat ≤ (linuxProcFileContent file).length
  returns : ∀ t : UserTrap, IsProcRead t.frame → t.frame.a1 ≠ 0 →
    (returned info s.kernel t).toNat =
      min t.frame.a2.toNat ((linuxProcFileContent file).length - s.bytes.length)
  zero_iff : ∀ t : UserTrap, IsProcRead t.frame → t.frame.a1 ≠ 0 →
    (returned info s.kernel t = 0 ↔ t.frame.a2 = 0 ∨ s.bytes = linuxProcFileContent file)

theorem ProcInv.deliversFile {file : UInt32} {s : ProcRun} (h : ProcInv file s)
    (info : Stage0Info) : DeliversFile info file s where
  isPrefix := h.delivered ▸ List.take_prefix _ _
  offset_le := h.offset_le
  returns _ hread hbuf := h.toNat_returned hread hbuf
  zero_iff t hread hbuf := by
    have hpre : s.bytes <+: linuxProcFileContent file := h.delivered ▸ List.take_prefix _ _
    have hall : s.bytes = linuxProcFileContent file ↔
        (linuxProcFileContent file).length - s.bytes.length = 0 := by
      rw [Nat.sub_eq_zero_iff_le]
      exact ⟨fun heq ↦ heq ▸ le_rfl, fun hle ↦ hpre.eq_of_length_le hle⟩
    rw [← UInt32.toNat_inj, h.toNat_returned hread hbuf, hall, ← UInt32.toNat_inj,
      UInt32.toNat_zero, Nat.min_eq_zero_iff]

/-- **Reading a file of `/proc`.** In every state that is reached after the file has been opened,
by any traps but calls of `openat` and `close`. -/
theorem proc_reads_deliver {info : Stage0Info} {ok : ProcRun → UserTrap → Prop} {g : Stage0}
    {t : UserTrap} {file : UInt32} {s : ProcRun} (hopen : OpensFile t file)
    (h : Runs.Reachable (procStep info) ok ⟨kernelAfter info g t, []⟩ s) :
    DeliversFile info file s := by
  have hinv := h.invariant (ProcInv file) (procInv_of_opensFile hopen info g)
    fun hs _ hstep ↦ hs.step hstep
  exact hinv.deliversFile info

/-- A call of `read` on the descriptor for the files, with a buffer in the user region. -/
def readCount (count : UInt32) : UserTrap where
  time := 0
  frame := ecall 63 xnuStage0ProcFd 0x81000000 count 0
  mem _ := 0

/-- A first read of five bytes from `/proc/version`. -/
theorem proc_reads_deliver_version :
    ∃ s, procStep ⟨0, 0⟩ ⟨kernelAfter ⟨0, 0⟩ (.initial 0 0 0) (openatPath "/proc/version"), []⟩
        (readCount 5) = some s ∧ DeliversFile ⟨0, 0⟩ 1 s := by
  have hopen : OpensFile (openatPath "/proc/version") 1 := by decide
  have hstep := (procInv_of_opensFile hopen ⟨0, 0⟩ (.initial 0 0 0)).procStep_read ⟨0, 0⟩
    (by decide : IsProcRead (readCount 5).frame) (by decide)
  have hrun : Runs.Reachable (procStep ⟨0, 0⟩) (fun _ _ ↦ True)
      ⟨kernelAfter ⟨0, 0⟩ (.initial 0 0 0) (openatPath "/proc/version"), []⟩ _ :=
    .next .start trivial hstep
  exact ⟨_, hstep, proc_reads_deliver hopen hrun⟩

end CaribeOS
