import Mathlib.Data.Nat.ModEq
import CaribeOS.Stage0.Descriptors

/-!
# What `write` and `writev` print and what they return

Both calls print a message of the kernel and the bytes of the caller, of each buffer at most 512,
and `writev` looks at no more than four entries. What is returned is added up from the lengths that
the caller gave.

To compare the two we follow the console as a log of what is sent to `putc`, in which each
character of the caller is marked with its place in the data: the entry of the vector and the index
in its buffer. The bytes that a call emits are then those that stand in the log, and the call has
reported what it wrote if they are the first bytes of the data, as many as it returns.
-/

namespace CaribeOS

open ByteMemory ByteProgram ByteProgram.Prog

/-! ## The console as a log -/

/-- A byte of the caller's data, with its place. -/
structure UserByte where
  entry : ℕ
  index : ℕ
  value : UInt8

/-- What is sent to `putc`: a character of the kernel's message, or one of the caller's data. -/
inductive Shown where
  | kernel (c : UInt8)
  | user (b : UserByte)

def Shown.char : Shown → UInt8
  | kernel c => c
  | user b => b.value

def Shown.byte : Shown → Option UserByte
  | kernel _ => none
  | user b => some b

/-- What `putc` sends to the device. -/
def console (c : UInt8) : List UInt8 := if c = 10 then [13, 10] else [c]

def consoleOf (log : List Shown) : List UInt8 := log.flatMap fun s ↦ console s.char

/-- The bytes of the caller in the log. -/
def emitted (log : List Shown) : List UserByte := log.filterMap Shown.byte

def kernelText (cs : List UInt8) : List Shown := cs.map .kernel

theorem consoleOf_append (log log' : List Shown) :
    consoleOf (log ++ log') = consoleOf log ++ consoleOf log' := List.flatMap_append

theorem emitted_append (log log' : List Shown) :
    emitted (log ++ log') = emitted log ++ emitted log' := List.filterMap_append

theorem consoleOf_kernelText (cs : List UInt8) :
    consoleOf (kernelText cs) = cs.flatMap console := List.flatMap_map _ _ _

theorem emitted_kernelText (cs : List UInt8) : emitted (kernelText cs) = [] := by
  rw [emitted, kernelText, List.filterMap_map]
  exact List.filterMap_eq_nil_iff.mpr fun _ _ ↦ rfl

theorem emitted_map_user (bs : List UserByte) : emitted (bs.map .user) = bs := by
  rw [emitted, List.filterMap_map]
  exact List.filterMap_some

/-! ## What is printed -/

/-- The digits of `putdec`. -/
def decimal (v : UInt32) : List UInt8 := if v = 0 then [48] else decDigits 10 v

/-- The digits of `puthex32`. -/
def hexadecimal (v : UInt32) : List UInt8 :=
  ([28, 24, 20, 16, 12, 8, 4, 0] : List UInt32).map fun i ↦ hexDigit ((v >>> i) &&& 15)

/-- `linux_print_user_buf` prints these bytes as they are. -/
def Plain (c : UInt8) : Prop := 32 ≤ c ∧ c < 127 ∨ c = 10
  deriving Decidable

/-- The bytes of a buffer. -/
def userBytes (m : Mem) (entry : ℕ) (base : UInt32) (n : ℕ) : List UserByte :=
  (List.range n).map fun k ↦ ⟨entry, k, m (base + .ofNat k)⟩

/-- A byte as it is printed. -/
def UserByte.shown (b : UserByte) : UserByte :=
  { b with value := if Plain b.value then b.value else 46 }

/-- The bytes of a buffer that are printed. -/
def printedBytes (m : Mem) (entry : ℕ) (base len : UInt32) : List UserByte :=
  (userBytes m entry base (printedLength len)).map UserByte.shown

section Out

variable (m : Mem)

theorem out_putc (c : UInt8) : (putc c).out m = console c := out_printAll _ _

theorem out_putBytes (cs : List UInt8) : (putBytes cs).out m = cs.flatMap console := by
  induction cs with
  | nil => rfl
  | cons c cs ih => rw [putBytes, out_bind, out_putc, mem_putc, ih, List.flatMap_cons]

theorem out_puts (s : String) : (puts s).out m = consoleOf (kernelText (cString s)) := by
  rw [puts, out_putBytes, consoleOf_kernelText]

theorem out_puthex32 (v : UInt32) :
    (puthex32 v).out m = consoleOf (kernelText (hexadecimal v)) := by
  rw [puthex32, out_putBytes, consoleOf_kernelText, hexadecimal]

theorem out_putdec (v : UInt32) : (putdec v).out m = consoleOf (kernelText (decimal v)) := by
  rw [consoleOf_kernelText, putdec, decimal]
  split_ifs
  · exact out_putc m 48
  · exact out_putBytes m _

theorem out_linuxLoad32 (a : UInt32) : (linuxLoad32 a).out m = [] := by
  rw [linuxLoad32, out_bind, out_loadAll, out_pure, List.nil_append]

theorem out_printUserBytes (a : UInt32) (n : ℕ) :
    (printUserBytes a n).out m = (List.range n).flatMap fun k ↦
      console (if Plain (m (a + .ofNat k)) then m (a + .ofNat k) else 46) := by
  induction n generalizing a with
  | zero => rfl
  | succ n ih =>
    rw [printUserBytes, out, out_bind, out_putc, mem_putc, ih, List.range_succ_eq_map,
      List.flatMap_cons, List.flatMap_map, add_ofNat_zero]
    refine congrArg (console _ ++ ·) (List.flatMap_congr fun k _ ↦ ?_)
    rw [show (1 : UInt32) = .ofNat 1 from rfl, add_ofNat_add, Nat.add_comm]

theorem out_linuxPrintUserBuf (entry : ℕ) (base len : UInt32) :
    (linuxPrintUserBuf base len).out m = consoleOf ((printedBytes m entry base len).map .user) := by
  rw [linuxPrintUserBuf, out_printUserBytes, consoleOf, printedBytes, userBytes, List.flatMap_map,
    List.flatMap_map, List.flatMap_map]
  rfl

end Out

/-! ## The two calls -/

/-- The entries of a vector: the address of a buffer and its length. -/
def iovecs (m : Mem) : UInt32 → ℕ → List (UInt32 × UInt32)
  | _, 0 => []
  | iov, n + 1 =>
    ((linuxLoad32 iov).val m, (linuxLoad32 (iov + 4)).val m) :: iovecs m (iov + 8) n

theorem length_iovecs (m : Mem) (iov : UInt32) (n : ℕ) : (iovecs m iov n).length = n := by
  induction n generalizing iov with
  | zero => rfl
  | succ n ih => rw [iovecs, List.length_cons, ih]

theorem exists_iovecs_append (m : Mem) (iov : UInt32) (n k : ℕ) :
    ∃ rest, iovecs m iov (n + k) = iovecs m iov n ++ rest := by
  induction n generalizing iov with
  | zero => exact ⟨_, rfl⟩
  | succ n ih =>
    obtain ⟨rest, hrest⟩ := ih (iov + 8)
    refine ⟨rest, ?_⟩
    rw [Nat.succ_add, iovecs, hrest, iovecs, List.cons_append]

/-- The data of the buffers, one after the other. The entries are numbered from `i` on. -/
def userData (m : Mem) : ℕ → List (UInt32 × UInt32) → List UserByte
  | _, [] => []
  | i, (base, len) :: rest => userBytes m i base len.toNat ++ userData m (i + 1) rest

/-- What is printed of them. -/
def printedData (m : Mem) : ℕ → List (UInt32 × UInt32) → List UserByte
  | _, [] => []
  | i, (base, len) :: rest => printedBytes m i base len ++ printedData m (i + 1) rest

def writeLog (m : Mem) (f : UserFrame) : List Shown :=
  kernelText (cString "[riscv32] linux write(fd=") ++ kernelText (decimal f.a0) ++
    kernelText (cString ", len=") ++ kernelText (decimal f.a2) ++ kernelText (cString ") -> ") ++
    (printedBytes m 0 f.a1 f.a2).map .user

/-- The lines of `writev`, one for each entry. -/
def iovecLog (m : Mem) : ℕ → List (UInt32 × UInt32) → List Shown
  | _, [] => []
  | i, (base, len) :: rest =>
    kernelText (cString "  [iov] base=0x") ++ kernelText (hexadecimal base) ++
      kernelText (cString " len=") ++ kernelText (decimal len) ++ kernelText (cString " -> ") ++
      (printedBytes m i base len).map .user ++ iovecLog m (i + 1) rest

def writevLog (m : Mem) (f : UserFrame) : List Shown :=
  kernelText (cString "[riscv32] linux writev(fd=") ++ kernelText (decimal f.a0) ++
    kernelText (cString ", iovcnt=") ++ kernelText (decimal f.a2) ++ kernelText (cString ")\n") ++
    iovecLog m 0 (iovecs m f.a1 (writevCount f.a2))

theorem emitted_writeLog (m : Mem) (f : UserFrame) :
    emitted (writeLog m f) = printedData m 0 [(f.a1, f.a2)] := by
  simp only [writeLog, emitted_append, emitted_kernelText, emitted_map_user, List.nil_append,
    printedData, List.append_nil]

theorem emitted_iovecLog (m : Mem) (i : ℕ) (es : List (UInt32 × UInt32)) :
    emitted (iovecLog m i es) = printedData m i es := by
  induction es generalizing i with
  | nil => rfl
  | cons e es ih =>
    simp only [iovecLog, emitted_append, emitted_kernelText, emitted_map_user, List.nil_append,
      printedData, ih]

theorem emitted_writevLog (m : Mem) (f : UserFrame) :
    emitted (writevLog m f) = printedData m 0 (iovecs m f.a1 (writevCount f.a2)) := by
  simp only [writevLog, emitted_append, emitted_kernelText, emitted_iovecLog, List.nil_append]

theorem out_sysWrite (info : Stage0Info) (time : UInt64) (g : Stage0) (f : UserFrame) (m : Mem) :
    (sysWrite info time g f).out m = consoleOf (writeLog m f) := by
  simp only [sysWrite, out_bind, mem_puts, mem_putdec, out_puts, out_putdec, out_pure,
    out_linuxPrintUserBuf m 0, writeLog, consoleOf_append, List.append_assoc, List.append_nil]

/-- The loop of `writev` leaves the memory as it is, prints a line for each entry and adds up the
lengths. -/
theorem writevLoop_spec (m : Mem) (i : ℕ) (iov : UInt32) (n : ℕ) (total : UInt32) :
    (writevLoop iov n total).out m = consoleOf (iovecLog m i (iovecs m iov n)) ∧
      ((writevLoop iov n total).val m).toNat =
        (total.toNat + ((iovecs m iov n).map fun e ↦ e.2.toNat).sum) % 2 ^ 32 := by
  induction n generalizing i iov total with
  | zero => exact ⟨rfl, (Nat.mod_eq_of_lt total.toNat_lt).symm⟩
  | succ n ih =>
    obtain ⟨hout, hval⟩ := ih (i + 1) (iov + 8) (total + (linuxLoad32 (iov + 4)).val m)
    constructor
    · simp only [writevLoop, out_bind, mem_puts, mem_putdec, mem_puthex32, mem_linuxLoad32,
        mem_linuxPrintUserBuf, out_puts, out_putdec, out_puthex32, out_linuxLoad32, hout,
        out_linuxPrintUserBuf m i, iovecs, iovecLog, consoleOf_append, List.append_assoc,
        List.nil_append]
    · simp only [writevLoop, val_bind, mem_puts, mem_putdec, mem_puthex32, mem_linuxLoad32,
        mem_linuxPrintUserBuf, hval, iovecs, List.map_cons, List.sum_cons]
      rw [UInt32.toNat_add, Nat.mod_add_mod, Nat.add_assoc]

theorem out_sysWritev (info : Stage0Info) (time : UInt64) (g : Stage0) (f : UserFrame) (m : Mem) :
    (sysWritev info time g f).out m = consoleOf (writevLog m f) := by
  simp only [sysWritev, out_bind, mem_puts, mem_putdec, out_puts, out_putdec, out_pure,
    (writevLoop_spec m 0 f.a1 (writevCount f.a2) 0).1, writevLog, consoleOf_append,
    List.append_assoc, List.append_nil]

/-! ## Reporting what was written -/

/-- A call that prints `out` and returns `ret` has reported what it wrote: the log is what stands on
the console, it holds as many bytes of the caller as are returned, and these are the first of the
data. -/
structure Reports (out : List UInt8) (ret : UInt32) (log : List Shown) (data : List UserByte) :
    Prop where
  shown : out = consoleOf log
  count : ret.toNat = (emitted log).length
  first : emitted log = data.take ret.toNat

/-- The whole buffer is printed, and as it is. -/
def PrintsWhole (m : Mem) (e : UInt32 × UInt32) : Prop :=
  e.2.toNat ≤ 512 ∧ ∀ k < e.2.toNat, Plain (m (e.1 + .ofNat k))

theorem printedLength_eq (len : UInt32) : printedLength len = min len.toNat 512 := by
  rw [printedLength]
  split_ifs with h
  · exact (min_eq_right (UInt32.lt_iff_toNat_lt.mp h).le).symm
  · exact (min_eq_left (not_lt.mp fun hlt ↦ h (UInt32.lt_iff_toNat_lt.mpr hlt))).symm

theorem length_userBytes (m : Mem) (i : ℕ) (base : UInt32) (n : ℕ) :
    (userBytes m i base n).length = n := by
  rw [userBytes, List.length_map, List.length_range]

theorem length_printedBytes (m : Mem) (i : ℕ) (base len : UInt32) :
    (printedBytes m i base len).length = min len.toNat 512 := by
  rw [printedBytes, List.length_map, length_userBytes, printedLength_eq]

theorem shown_eq_self_iff (b : UserByte) : b.shown = b ↔ Plain b.value := by
  rw [UserByte.shown]
  split_ifs with h
  · exact iff_of_true rfl h
  · refine iff_of_false (fun heq ↦ h ?_) h
    have hvalue : 46 = b.value := congrArg UserByte.value heq
    rw [← hvalue]
    decide

variable {i : ℕ} {m : Mem} {es : List (UInt32 × UInt32)}

/-- A buffer that is not cut is printed as it is exactly if its bytes are plain. -/
theorem printedBytes_eq_iff {base len : UInt32} (hlen : len.toNat ≤ 512) :
    printedBytes m i base len = userBytes m i base len.toNat ↔
      ∀ k < len.toNat, Plain (m (base + .ofNat k)) := by
  rw [printedBytes, printedLength_eq, min_eq_left hlen, userBytes, List.map_map, List.map_inj_left]
  refine forall_congr' fun k ↦ ?_
  rw [List.mem_range]
  exact imp_congr_right fun _ ↦ shown_eq_self_iff _

theorem entry_of_mem_printedData {b : UserByte} (hb : b ∈ printedData m i es) : i ≤ b.entry := by
  induction es generalizing i with
  | nil => exact absurd hb List.not_mem_nil
  | cons e es ih =>
    rw [printedData, List.mem_append] at hb
    rcases hb with hb | hb
    · obtain ⟨c, hc, rfl⟩ := List.mem_map.mp hb
      obtain ⟨k, -, rfl⟩ := List.mem_map.mp hc
      exact le_rfl
    · exact (Nat.le_succ i).trans (ih hb)

theorem sum_eq_zero_of_printedData (h : printedData m i es = []) :
    (es.map fun e ↦ e.2.toNat).sum = 0 := by
  induction es generalizing i with
  | nil => rfl
  | cons e es ih =>
    rw [printedData, List.append_eq_nil_iff] at h
    have hlen := length_printedBytes m i e.1 e.2
    rw [h.1, List.length_nil] at hlen
    have hzero : e.2.toNat = 0 := by omega
    rw [List.map_cons, List.sum_cons, hzero, ih h.2]

/-- A buffer that is cut is noticed: behind its first 512 bytes comes another entry or nothing, and
the data goes on with the same entry. -/
theorem le_of_printedData_eq_take {base len : UInt32} {more : List UserByte}
    (hfirst : printedData m i ((base, len) :: es) =
      (userData m i ((base, len) :: es) ++ more).take (printedData m i ((base, len) :: es)).length)
    (hcount : len.toNat + (es.map fun e ↦ e.2.toNat).sum ≡
      (printedData m i ((base, len) :: es)).length [MOD 2 ^ 32]) : len.toNat ≤ 512 := by
  by_contra hlen
  rw [not_le] at hlen
  have hcut : (printedBytes m i base len).length = 512 := by
    rw [length_printedBytes, min_eq_right hlen.le]
  rw [printedData, List.length_append, hcut] at hcount
  rcases hrest : printedData m (i + 1) es with - | ⟨b, bs⟩
  · rw [hrest, sum_eq_zero_of_printedData hrest] at hcount
    exact hlen.ne' (hcount.eq_of_lt_of_lt len.toNat_lt (by decide))
  · -- the byte at index 512 of what is printed belongs to a later entry
    have hat := congrArg (fun l ↦ l[512]?) hfirst
    rw [printedData, List.getElem?_append_right hcut.le, hcut, Nat.sub_self, hrest,
      List.getElem?_take_of_lt (by rw [List.length_append, hcut, List.length_cons]; omega),
      userData, List.append_assoc,
      List.getElem?_append_left (by rw [length_userBytes]; exact hlen), userBytes,
      List.getElem?_map, List.getElem?_range hlen, List.getElem?_cons_zero, Option.map_some,
      Option.some_inj] at hat
    have hentry := entry_of_mem_printedData (hrest ▸ List.mem_cons_self : b ∈ _)
    rw [hat] at hentry
    exact absurd hentry (Nat.not_succ_le_self i)

theorem printsWhole_of_printedData {more : List UserByte}
    (hfirst : printedData m i es = (userData m i es ++ more).take (printedData m i es).length)
    (hcount : (es.map fun e ↦ e.2.toNat).sum ≡ (printedData m i es).length [MOD 2 ^ 32]) :
    ∀ e ∈ es, PrintsWhole m e := by
  induction es generalizing i with
  | nil => exact fun e he ↦ absurd he List.not_mem_nil
  | cons e es ih =>
    obtain ⟨base, len⟩ := e
    have hlen := le_of_printedData_eq_take hfirst hcount
    have hprinted : (printedBytes m i base len).length = len.toNat := by
      rw [length_printedBytes, min_eq_left hlen]
    -- the buffer is not cut, so the two lists can be compared buffer by buffer
    rw [printedData, userData, List.append_assoc, List.length_append, hprinted,
      List.take_append, length_userBytes, Nat.add_sub_cancel_left,
      List.take_of_length_le (by rw [length_userBytes]; exact Nat.le_add_right _ _)] at hfirst
    obtain ⟨hhead, htail⟩ := List.append_inj hfirst (by rw [hprinted, length_userBytes])
    rw [printedData, List.length_append, hprinted] at hcount
    refine List.forall_mem_cons.mpr ⟨⟨hlen, (printedBytes_eq_iff hlen).mp hhead⟩, ?_⟩
    exact ih htail (Nat.ModEq.add_left_cancel' _ hcount)

theorem printedData_eq (h : ∀ e ∈ es, PrintsWhole m e) (i : ℕ) :
    printedData m i es = userData m i es := by
  induction es generalizing i with
  | nil => rfl
  | cons e es ih =>
    obtain ⟨⟨hlen, hplain⟩, hrest⟩ := List.forall_mem_cons.mp h
    rw [printedData, userData, (printedBytes_eq_iff hlen).mpr hplain, ih hrest]

theorem length_userData (m : Mem) (i : ℕ) (es : List (UInt32 × UInt32)) :
    (userData m i es).length = (es.map fun e ↦ e.2.toNat).sum := by
  induction es generalizing i with
  | nil => rfl
  | cons e es ih =>
    rw [userData, List.length_append, length_userBytes, ih, List.map_cons, List.sum_cons]

theorem exists_userData_append (m : Mem) (i : ℕ) (es rest : List (UInt32 × UInt32)) :
    ∃ more, userData m i (es ++ rest) = userData m i es ++ more := by
  induction es generalizing i with
  | nil => exact ⟨_, rfl⟩
  | cons e es ih =>
    obtain ⟨more, hmore⟩ := ih (i + 1)
    refine ⟨more, ?_⟩
    rw [List.cons_append, userData, hmore, userData, List.append_assoc]

theorem sum_le_of_printsWhole (h : ∀ e ∈ es, PrintsWhole m e) :
    (es.map fun e ↦ e.2.toNat).sum ≤ es.length * 512 := by
  have hsum := List.sum_le_card_nsmul (es.map fun e ↦ e.2.toNat) 512 fun n hn ↦ by
    obtain ⟨e, he, rfl⟩ := List.mem_map.mp hn
    exact (h e he).1
  rwa [List.length_map, smul_eq_mul] at hsum

/-- A call that looks at the first entries `es` and returns the sum of their lengths. -/
theorem reports_iff {out : List UInt8} {ret : UInt32} {log : List Shown}
    (rest : List (UInt32 × UInt32)) (hout : out = consoleOf log)
    (hlog : emitted log = printedData m 0 es) (hes : es.length ≤ 4)
    (hret : ret.toNat = (es.map fun e ↦ e.2.toNat).sum % 2 ^ 32) :
    Reports out ret log (userData m 0 (es ++ rest)) ↔ ∀ e ∈ es, PrintsWhole m e := by
  obtain ⟨more, hmore⟩ := exists_userData_append m 0 es rest
  rw [hmore]
  constructor
  · intro h
    have hfirst := h.first
    have hcount := h.count
    rw [hcount, hlog] at hfirst
    rw [hlog, hret] at hcount
    exact printsWhole_of_printedData hfirst (hcount ▸ (Nat.mod_modEq _ _).symm)
  · intro h
    have hsum := sum_le_of_printsWhole h
    have hlt : (es.map fun e ↦ e.2.toNat).sum < 2 ^ 32 := by omega
    rw [Nat.mod_eq_of_lt hlt, ← length_userData m 0] at hret
    rw [printedData_eq h] at hlog
    exact ⟨hout, by rw [hlog, hret], by rw [hlog, hret, List.take_left]⟩

/-- A frame of the caller with the number of a system call. -/
def UserFrame.calling (f : UserFrame) (number : UInt32) : UserFrame :=
  { f with scause := 8, a7 := number }

/-- What the trap prints. -/
def printedBy (info : Stage0Info) (g : Stage0) (t : UserTrap) : List UInt8 :=
  (xnuStage0UserTrapDispatch info t.time g t.frame).out t.mem

theorem writevCount_eq (iovcnt : UInt32) : writevCount iovcnt = min iovcnt.toNat 4 := by
  rw [writevCount]
  split_ifs with h
  · exact (min_eq_right (UInt32.lt_iff_toNat_lt.mp h).le).symm
  · exact (min_eq_left (not_lt.mp fun hlt ↦ h (UInt32.lt_iff_toNat_lt.mpr hlt))).symm

section Calls

variable (info : Stage0Info) (g : Stage0) (time : UInt64) (f : UserFrame) (m : Mem)

theorem write_call :
    printedBy info g ⟨time, f.calling 64, m⟩ = consoleOf (writeLog m f) ∧
      returned info g ⟨time, f.calling 64, m⟩ = f.a2 := by
  have hdispatch := dispatch_call (rfl : (f.calling 64).scause = 8)
    (rfl : syscalls.lookup (f.calling 64).a7 = some sysWrite) info time g
  rw [printedBy, returned, hdispatch, out_sysWrite]
  exact ⟨rfl, by simp [sysWrite, UserFrame.ret, UserFrame.calling]⟩

theorem writev_call :
    printedBy info g ⟨time, f.calling 66, m⟩ = consoleOf (writevLog m f) ∧
      (returned info g ⟨time, f.calling 66, m⟩).toNat =
        ((iovecs m f.a1 (writevCount f.a2)).map fun e ↦ e.2.toNat).sum % 2 ^ 32 := by
  have hdispatch := dispatch_call (rfl : (f.calling 66).scause = 8)
    (rfl : syscalls.lookup (f.calling 66).a7 = some sysWritev) info time g
  have htotal := (writevLoop_spec m 0 f.a1 (writevCount f.a2) 0).2
  rw [printedBy, returned, hdispatch, out_sysWritev]
  refine ⟨rfl, ?_⟩
  simp only [sysWritev, val_bind, mem_puts, mem_putdec, val_pure, UserFrame.ret]
  exact htotal.trans (by rw [UInt32.toNat_zero, Nat.zero_add])

theorem write_reports_iff :
    Reports (printedBy info g ⟨time, f.calling 64, m⟩) (returned info g ⟨time, f.calling 64, m⟩)
        (writeLog m f) (userData m 0 [(f.a1, f.a2)]) ↔ PrintsWhole m (f.a1, f.a2) := by
  obtain ⟨hout, hret⟩ := write_call info g time f m
  rw [← List.append_nil [(f.a1, f.a2)],
    reports_iff [] hout (emitted_writeLog m f) (Nat.one_le_ofNat) ?_, List.forall_mem_singleton]
  rw [hret, List.map_singleton, List.sum_singleton, Nat.mod_eq_of_lt f.a2.toNat_lt]

theorem writev_reports_iff :
    Reports (printedBy info g ⟨time, f.calling 66, m⟩) (returned info g ⟨time, f.calling 66, m⟩)
        (writevLog m f) (userData m 0 (iovecs m f.a1 f.a2.toNat)) ↔
      ∀ e ∈ iovecs m f.a1 (min f.a2.toNat 4), PrintsWhole m e := by
  obtain ⟨hout, hret⟩ := writev_call info g time f m
  obtain ⟨rest, hrest⟩ :=
    exists_iovecs_append m f.a1 (writevCount f.a2) (f.a2.toNat - writevCount f.a2)
  have hcount := writevCount_eq f.a2
  rw [Nat.add_sub_cancel' (by omega)] at hrest
  rw [hrest, reports_iff rest hout (emitted_writevLog m f) _ hret, hcount]
  rw [length_iovecs, hcount]
  exact min_le_right _ _

/-- **When the calls report what they wrote.** `write` does exactly if the buffer has at most 512
bytes and `linux_print_user_buf` prints each of them as it is; `writev` exactly if that holds of
each of its first four buffers. -/
theorem written_reports_iff :
    (Reports (printedBy info g ⟨time, f.calling 64, m⟩) (returned info g ⟨time, f.calling 64, m⟩)
        (writeLog m f) (userData m 0 [(f.a1, f.a2)]) ↔ PrintsWhole m (f.a1, f.a2)) ∧
      (Reports (printedBy info g ⟨time, f.calling 66, m⟩)
          (returned info g ⟨time, f.calling 66, m⟩) (writevLog m f)
          (userData m 0 (iovecs m f.a1 f.a2.toNat)) ↔
        ∀ e ∈ iovecs m f.a1 (min f.a2.toNat 4), PrintsWhole m e) :=
  ⟨write_reports_iff info g time f m, writev_reports_iff info g time f m⟩

end Calls

/-- A frame with the three arguments of `write` and `writev`. -/
def writeFrame (fd address count : UInt32) : UserFrame := ⟨fd, address, count, 0, 0, 0, 0, 0, 0⟩

/-- Of 513 letters `write` prints 512 and returns 513. -/
theorem write_reports_too_much :
    ¬Reports (printedBy ⟨0, 0⟩ (.initial 0 0 0) ⟨0, (writeFrame 1 0x81000000 513).calling 64,
        fun _ ↦ 65⟩)
      (returned ⟨0, 0⟩ (.initial 0 0 0) ⟨0, (writeFrame 1 0x81000000 513).calling 64, fun _ ↦ 65⟩)
      (writeLog (fun _ ↦ 65) (writeFrame 1 0x81000000 513))
      (userData (fun _ ↦ 65) 0 [(0x81000000, 513)]) := by
  intro h
  have hcut : PrintsWhole _ _ := (write_reports_iff _ _ _ _ _).mp h
  exact absurd hcut.1 (by decide)

end CaribeOS
