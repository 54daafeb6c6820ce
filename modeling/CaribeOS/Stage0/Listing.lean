import CaribeOS.Foundation.Records
import CaribeOS.Stage0.ProcReads

/-!
# Listing the directory `/proc`

`getdents64` writes records into the caller's buffer, one for each entry of the directory, as
long as the next one fits, and remembers how many entries it has delivered. The caller cuts the
bytes that it is told were written into records again, by the length that each carries.

## Records

A record is a row of fields, padded with zeros to a multiple of eight. The kernel zeroes the whole
record first and then stores the fields into it; what stands in memory is the row
`direntRecord`. So a call writes a row of such records and nothing else, and the caller finds
the entries from the offset on, as many as fit.

## Zero

A caller takes a result of zero for the end of the directory. The kernel returns zero also
when there are entries left and the buffer is too small for the next one.
-/

namespace CaribeOS

open ByteMemory ByteProgram ByteProgram.Prog

/-! ## A record in memory -/

theorem mem_linuxStore32 (a v : UInt32) (m : Mem) :
    (linuxStore32 a v).mem m = (storeAll a (wordBytes v)).mem m := by
  rw [linuxStore32, wordBytes]

theorem mem_linuxStore64 (a lo hi : UInt32) (m : Mem) :
    (linuxStore64 a lo hi).mem m = (storeAll a (wordBytes lo ++ wordBytes hi)).mem m := by
  rw [mem_storeAll_append, linuxStore64, mem_bind, mem_linuxStore32, mem_linuxStore32]
  rfl

/-- The fields of a record up to the end of the name. -/
def direntFields (ino off type : UInt32) (name : String) : List UInt8 :=
  (wordBytes ino ++ wordBytes 0) ++ (wordBytes off ++ wordBytes 0) ++
    [(direntReclen name).toUInt16.toUInt8, ((direntReclen name).toUInt16 >>> 8).toUInt8] ++
    [type.toUInt8] ++ cString name ++ [0]

/-- The whole record, with its padding. -/
def direntRecord (ino off type : UInt32) (name : String) : List UInt8 :=
  direntFields ino off type name ++
    List.replicate ((direntReclen name).toNat - (20 + (cString name).length)) 0

theorem length_direntFields (ino off type : UInt32) (name : String) :
    (direntFields ino off type name).length = 20 + (cString name).length := by
  simp only [direntFields, wordBytes, List.length_append, List.length_map, List.length_range,
    List.length_cons, List.length_nil]
  omega

theorem length_direntRecord {name : String} (h : (cString name).length ≤ 255)
    (ino off type : UInt32) :
    (direntRecord ino off type name).length = (direntReclen name).toNat := by
  have hreclen := toNat_direntReclen h
  rw [direntRecord, List.length_append, length_direntFields, List.length_replicate]
  omega

theorem mem_direntFields (a ino off type : UInt32) (name : String) (m : Mem) :
    (storeAll a (direntFields ino off type name)).mem m =
      (do linuxStore64 a ino 0
          linuxStore64 (a + 8) off 0
          linuxStore16 (a + 16) (direntReclen name).toUInt16
          linuxStore8 (a + 18) type.toUInt8
          linuxCopyToUser (a + 19) (cString name)
          linuxStore8 (a + 19 + strlen (cString name)) 0 : Prog Unit).mem m := by
  simp only [mem_bind, mem_linuxStore64]
  rw [direntFields, mem_storeAll_append, mem_storeAll_append, mem_storeAll_append,
    mem_storeAll_append, mem_storeAll_append, @List.length_append _ _ (cString name),
    ← add_ofNat_add]
  rfl

theorem mem_linuxCopyoutDirent64 (a ino off type : UInt32) {name : String}
    (h : (cString name).length ≤ 255) (m : Mem) :
    (linuxCopyoutDirent64 a ino off type name).mem m =
      (storeAll a (direntRecord ino off type name)).mem m := by
  have hreclen := toNat_direntReclen h
  have hfields := length_direntFields ino off type name
  have hzeros : (List.replicate (direntReclen name).toNat (0 : UInt8)).length =
      (direntReclen name).toNat := List.length_replicate
  have hover : (storeAll (a + .ofNat 0) (direntFields ino off type name)).mem
      ((storeAll a (List.replicate (direntReclen name).toNat 0)).mem m) = _ :=
    mem_storeAll_overwrite a (by omega) (by omega) m
  rw [add_ofNat_zero, overwrite, List.take_zero, List.nil_append, Nat.zero_add,
    List.drop_replicate, hfields, ← direntRecord, mem_direntFields] at hover
  rw [← hover, linuxCopyoutDirent64, mem_bind, linuxZeroUser]

/-! ## The loop -/

/-- The records of some entries, of which the first has the number `off`. -/
def direntRecords : UInt32 → List (String × UInt32 × UInt32) → List (List UInt8)
  | _, [] => []
  | off, (name, ino, type) :: rest =>
    direntRecord ino (off + 1) type name :: direntRecords (off + 1) rest

/-- How many entries fit behind `total` bytes of the buffer. -/
def fitting (count : UInt32) : List (String × UInt32 × UInt32) → UInt32 → ℕ
  | [], _ => 0
  | (name, _) :: rest, total =>
    if count - total < direntReclen name then 0
    else fitting count rest (total + direntReclen name) + 1

theorem length_direntRecords (off : UInt32) (es : List (String × UInt32 × UInt32)) :
    (direntRecords off es).length = es.length := by
  induction es generalizing off with
  | nil => rfl
  | cons e es ih => rw [direntRecords, List.length_cons, ih, List.length_cons]

theorem drop_direntRecords (off : UInt32) (es : List (String × UInt32 × UInt32)) (k : ℕ) :
    (direntRecords off es).drop k = direntRecords (off + .ofNat k) (es.drop k) := by
  induction k generalizing off es with
  | zero => rw [List.drop_zero, List.drop_zero, add_ofNat_zero]
  | succ k ih =>
    rcases es with - | ⟨e, es⟩
    · rfl
    · rw [direntRecords, List.drop_succ_cons, ih, List.drop_succ_cons, Nat.add_comm,
        ← add_ofNat_add]
      rfl

theorem fitting_le (count : UInt32) (es : List (String × UInt32 × UInt32)) (total : UInt32) :
    fitting count es total ≤ es.length := by
  induction es generalizing total with
  | nil => exact le_rfl
  | cons e es ih =>
    rw [fitting]
    split_ifs
    · exact Nat.zero_le _
    · exact Nat.succ_le_succ (ih _)

theorem getdentsLoop_spec {es : List (String × UInt32 × UInt32)}
    (hes : ∀ e ∈ es, (cString e.1).length ≤ 255) (a count off : UInt32) {total : UInt32}
    (htotal : total ≤ count) (m : Mem) :
    ((getdentsLoop a count es off total).val m).1 = off + .ofNat (fitting count es total) ∧
      ((getdentsLoop a count es off total).val m).2.toNat = total.toNat +
        ((direntRecords off es).take (fitting count es total)).flatten.length ∧
      ((getdentsLoop a count es off total).val m).2 ≤ count ∧
      (getdentsLoop a count es off total).mem m = (storeAll (a + total)
        ((direntRecords off es).take (fitting count es total)).flatten).mem m := by
  induction es generalizing off total m with
  | nil => exact ⟨(add_ofNat_zero off).symm, rfl, htotal, rfl⟩
  | cons e es ih =>
    obtain ⟨name, ino, type⟩ := e
    obtain ⟨hname, hes⟩ := List.forall_mem_cons.mp hes
    rw [fitting, getdentsLoop, direntRecords]
    by_cases hfull : count - total < direntReclen name
    · rw [if_pos hfull, if_pos hfull]
      exact ⟨(add_ofNat_zero off).symm, rfl, htotal, rfl⟩
    · obtain ⟨hsum, hnext⟩ := toNat_add_of_fits htotal hfull
      obtain ⟨hoff, hbytes, hle, hmem⟩ := ih hes (off + 1) hnext
        ((storeAll (a + total) (direntRecord ino (off + 1) type name)).mem m)
      have hlength := length_direntRecord hname ino (off + 1) type
      simp only [if_neg hfull, val_bind, mem_bind, mem_puts, mem_putdec,
        mem_linuxCopyoutDirent64 _ _ _ _ hname]
      refine ⟨?_, ?_, hle, ?_⟩
      · rw [hoff, Nat.add_comm, ← add_ofNat_add]
        rfl
      · rw [hbytes, hsum, List.take_succ_cons, List.flatten_cons, List.length_append, hlength,
          Nat.add_assoc]
      · rw [hmem, List.take_succ_cons, List.flatten_cons, mem_storeAll_append, hlength,
          UInt32.ofNat_toNat, UInt32.add_assoc]

/-! ## What the caller reads -/

/-- An entry as it is read from a record. -/
structure Dirent where
  ino : ℕ
  off : ℕ
  reclen : ℕ
  type : UInt8
  name : List UInt8
deriving DecidableEq

/-- A number in little-endian order. -/
def leNat (bs : List UInt8) : ℕ := bs.foldr (fun b n ↦ b.toNat + 256 * n) 0

/-- `d_reclen` of the first record. -/
def recordLength (bytes : List UInt8) : ℕ := leNat ((bytes.drop 16).take 2)

def readDirent (r : List UInt8) : Dirent where
  ino := leNat (r.take 8)
  off := leNat ((r.drop 8).take 8)
  reclen := recordLength r
  type := r.getD 18 0
  name := (r.drop 19).takeWhile (· ≠ 0)

/-- The entries in a row of records. -/
def direntsIn (bytes : List UInt8) : List Dirent :=
  (Records.split recordLength bytes.length bytes).map readDirent

/-- The entries of the directory. -/
def procDirents : List Dirent := procDirEntries.zipIdx.map fun e ↦
  ⟨e.1.2.1.toNat, e.2 + 1, (direntReclen e.1.1).toNat, e.1.2.2.toUInt8, cString e.1.1⟩

/-- Their records. -/
def procRecords : List (List UInt8) := direntRecords 0 procDirEntries

theorem map_readDirent_procRecords : procRecords.map readDirent = procDirents := by decide

variable {r : List UInt8} {t : UserTrap}

theorem of_mem_procRecords (hr : r ∈ procRecords) :
    18 ≤ r.length ∧ recordLength r = r.length ∧ 8 ∣ r.length := by
  have hall : ∀ r ∈ procRecords, 18 ≤ r.length ∧ recordLength r = r.length ∧ 8 ∣ r.length := by
    decide
  exact hall r hr

theorem delimited_of_mem_procRecords (hr : r ∈ procRecords) : Records.Delimited recordLength r := by
  obtain ⟨hlen, hreclen, -⟩ := of_mem_procRecords hr
  refine ⟨List.ne_nil_of_length_pos (by omega), fun rest ↦ ?_⟩
  rw [← hreclen, recordLength, recordLength, List.drop_append_of_le_length (by omega),
    List.take_append_of_le_length (by rw [List.length_drop]; omega)]

theorem direntsIn_flatten {rs : List (List UInt8)} (h : ∀ r ∈ rs, r ∈ procRecords) :
    direntsIn rs.flatten = rs.map readDirent := by
  have hdelimited : ∀ r ∈ rs, Records.Delimited recordLength r :=
    fun r hr ↦ delimited_of_mem_procRecords (h r hr)
  rw [direntsIn, Records.split_flatten hdelimited
    (Records.length_le_length_flatten fun r hr ↦ (hdelimited r hr).1)]

/-! ## The calls -/

/-- A call of `getdents64` on the descriptor for the directory. -/
def IsListing (f : UserFrame) : Prop := f.scause = 8 ∧ f.a7 = 61 ∧ f.a0 = xnuStage0ProcDirFd
  deriving Decidable

/-- The memory after a trap. -/
def memAfter (info : Stage0Info) (g : Stage0) (t : UserTrap) : Mem :=
  (xnuStage0UserTrapDispatch info t.time g t.frame).mem t.mem

/-- The entries that a trap returns: in the caller's buffer, as many bytes as the call says. -/
def listed (info : Stage0Info) (g : Stage0) (t : UserTrap) : List Dirent :=
  if IsError (returned info g t) then []
  else direntsIn (row (memAfter info g t) t.frame.a1 (returned info g t).toNat)

/-- The kernel's variables and the entries that have been returned. -/
structure ListingRun where
  kernel : Stage0
  entries : List Dirent

def listingStep (info : Stage0Info) (s : ListingRun) (t : UserTrap) : Option ListingRun :=
  if IsListing t.frame then
    (trapStep info s.kernel t).map fun g ↦ ⟨g, s.entries ++ listed info s.kernel t⟩
  else none

/-- The records that a call with a buffer of `count` bytes writes. -/
def nextRecords (g : Stage0) (count : UInt32) : List (List UInt8) :=
  (procRecords.drop g.procDirOffset.toNat).take
    (fitting count (procDirEntries.drop g.procDirOffset.toNat) 0)

section Calls

variable {info : Stage0Info} {g : Stage0} {t : UserTrap}

theorem val_sysGetdents64 {f : UserFrame} (hfd : f.a0 = xnuStage0ProcDirFd)
    (hopen : g.procDirOpen ≠ 0) (hbuf : f.a1 ≠ 0) (time : UInt64) (m : Mem) :
    ∃ offset ret : UInt32,
      (sysGetdents64 info time g f).val m = ({ g with procDirOffset := offset }, some (f.ret ret)) ∧
      offset = g.procDirOffset + .ofNat
        (fitting f.a2 (procDirEntries.drop g.procDirOffset.toNat) 0) ∧
      ret.toNat = (nextRecords g f.a2).flatten.length ∧ ret ≤ f.a2 ∧
      (sysGetdents64 info time g f).mem m = (storeAll f.a1 (nextRecords g f.a2).flatten).mem m := by
  have hnames : ∀ e ∈ procDirEntries.drop g.procDirOffset.toNat, (cString e.1).length ≤ 255 :=
    fun e he ↦ length_name_of_mem (List.mem_of_mem_drop he)
  have hrecords : direntRecords g.procDirOffset (procDirEntries.drop g.procDirOffset.toNat) =
      procRecords.drop g.procDirOffset.toNat := by
    rw [procRecords, drop_direntRecords, UInt32.ofNat_toNat, UInt32.zero_add]
  obtain ⟨hoff, hret, hle, hmem⟩ := getdentsLoop_spec hnames f.a1 f.a2 g.procDirOffset
    (UInt32.zero_le : 0 ≤ f.a2) m
  rw [hrecords, UInt32.toNat_zero, Nat.zero_add] at hret
  rw [hrecords, UInt32.add_zero] at hmem
  refine ⟨_, _, ?_, hoff, hret, hle, ?_⟩
  · simp only [sysGetdents64, val_bind, mem_puts, mem_putdec, val_pure,
      if_pos (⟨hfd, hopen, hbuf⟩ : f.a0 = xnuStage0ProcDirFd ∧ g.procDirOpen ≠ 0 ∧ f.a1 ≠ 0)]
  · simp only [sysGetdents64, mem_bind, mem_puts, mem_putdec, mem_pure, mem_putRet,
      if_pos (⟨hfd, hopen, hbuf⟩ : f.a0 = xnuStage0ProcDirFd ∧ g.procDirOpen ≠ 0 ∧ f.a1 ≠ 0)]
    exact hmem

/-- A call with a buffer, on the open directory. -/
structure ListingCall (info : Stage0Info) (g : Stage0) (t : UserTrap) : Prop where
  step : trapStep info g t = some (kernelAfter info g t)
  isOpen : (kernelAfter info g t).procDirOpen = g.procDirOpen
  offset : (kernelAfter info g t).procDirOffset = g.procDirOffset + .ofNat
    (fitting t.frame.a2 (procDirEntries.drop g.procDirOffset.toNat) 0)
  ret : (returned info g t).toNat = (nextRecords g t.frame.a2).flatten.length
  fits : returned info g t ≤ t.frame.a2
  mem : memAfter info g t = (storeAll t.frame.a1 (nextRecords g t.frame.a2).flatten).mem t.mem

theorem listingCall (ht : IsListing t.frame) (hopen : g.procDirOpen ≠ 0) (hbuf : t.frame.a1 ≠ 0) :
    ListingCall info g t := by
  obtain ⟨hcause, hcall, hfd⟩ := ht
  have hlookup : syscalls.lookup t.frame.a7 = some sysGetdents64 := by rw [hcall]; rfl
  have hopen' : (g.enter t.frame).procDirOpen ≠ 0 := hopen
  obtain ⟨offset, ret, hval, hoff, hret, hle, hmem⟩ :=
    @val_sysGetdents64 info (g.enter t.frame) t.frame hfd hopen' hbuf t.time t.mem
  have hdispatch := dispatch_call hcause hlookup info t.time g
  have hkernel : kernelAfter info g t = { g.enter t.frame with procDirOffset := offset } := by
    rw [kernelAfter, hdispatch, hval]
  have hreturned : returned info g t = ret := by
    rw [returned, hdispatch, hval]
    rfl
  refine ⟨?_, ?_, ?_, ?_, ?_, ?_⟩
  · rw [hkernel, trapStep, hdispatch, hval]
    rfl
  · rw [hkernel]
    rfl
  · rw [hkernel]
    exact hoff
  · rw [hreturned]
    exact hret
  · rw [hreturned]
    exact hle
  · rw [memAfter, hdispatch]
    exact hmem

theorem listing_of_null (ht : IsListing t.frame) (hbuf : t.frame.a1 = 0) :
    trapStep info g t = some (kernelAfter info g t) ∧
      ((kernelAfter info g t).procDirOpen = g.procDirOpen ∧
        (kernelAfter info g t).procDirOffset = g.procDirOffset) ∧
      IsError (returned info g t) := by
  obtain ⟨hcause, hcall, -⟩ := ht
  have hlookup : syscalls.lookup t.frame.a7 = some sysGetdents64 := by rw [hcall]; rfl
  have hval : (sysGetdents64 info t.time (g.enter t.frame) t.frame).val t.mem =
      (g.enter t.frame, some (t.frame.ret 0xfffffff2)) := by
    have hnot : ¬(t.frame.a0 = xnuStage0ProcDirFd ∧ (g.enter t.frame).procDirOpen ≠ 0 ∧
        t.frame.a1 ≠ 0) := fun h ↦ h.2.2 hbuf
    simp only [sysGetdents64, val_bind, mem_puts, mem_putdec, val_pure, if_neg hnot, if_pos hbuf]
    rfl
  rw [trapStep, kernelAfter, returned, dispatch_call hcause hlookup, hval]
  exact ⟨rfl, ⟨rfl, rfl⟩, (by decide : IsError 0xfffffff2)⟩

theorem mem_procRecords_of_mem_nextRecords {count : UInt32} (hr : r ∈ nextRecords g count) :
    r ∈ procRecords :=
  List.mem_of_mem_drop (List.mem_of_mem_take hr)

/-- The records are short, so that no result is taken for an error. -/
theorem ListingCall.not_isError (h : ListingCall info g t) : ¬IsError (returned info g t) := by
  have hsub : (nextRecords g t.frame.a2).flatten.length ≤ procRecords.flatten.length :=
    ((List.take_sublist _ _).trans (List.drop_sublist _ _)).flatten.length_le
  have hall : procRecords.flatten.length < 2 ^ 31 := by
    rw [List.length_flatten]
    decide
  have hlt : (returned info g t).toNat < 2 ^ 31 := by
    rw [h.ret]
    exact hsub.trans_lt hall
  exact not_isError_of_lt hlt

theorem ListingCall.row_eq (h : ListingCall info g t) :
    row (memAfter info g t) t.frame.a1 (returned info g t).toNat =
      (nextRecords g t.frame.a2).flatten := by
  have hle : (nextRecords g t.frame.a2).flatten.length ≤ 4294967296 := by
    rw [← h.ret]
    exact (returned info g t).toNat_lt.le
  rw [h.mem, h.ret, row_mem_storeAll _ hle]

theorem ListingCall.listed_eq (h : ListingCall info g t) :
    listed info g t = (nextRecords g t.frame.a2).map readDirent := by
  rw [listed, if_neg h.not_isError, h.row_eq,
    direntsIn_flatten fun r ↦ mem_procRecords_of_mem_nextRecords]

end Calls

/-! ## A whole listing -/

/-- The directory is open, and the entries delivered are its first ones, as many as the offset
says. -/
structure ListingInv (s : ListingRun) : Prop where
  isOpen : s.kernel.procDirOpen ≠ 0
  delivered : s.entries = procDirents.take s.kernel.procDirOffset.toNat
  offset_le : s.kernel.procDirOffset.toNat ≤ procDirents.length

theorem length_procDirents : procDirents.length = procDirEntries.length := by
  rw [procDirents, List.length_map, List.length_zipIdx]

namespace ListingInv

variable {info : Stage0Info} {s s' : ListingRun} {t : UserTrap}

theorem length_entries (h : ListingInv s) : s.entries.length = s.kernel.procDirOffset.toNat := by
  rw [h.delivered, List.length_take, min_eq_left h.offset_le]

theorem append_listed (h : ListingInv s) (hcall : ListingCall info s.kernel t) :
    s.entries ++ listed info s.kernel t = procDirents.take (s.kernel.procDirOffset.toNat +
      fitting t.frame.a2 (procDirEntries.drop s.kernel.procDirOffset.toNat) 0) := by
  rw [hcall.listed_eq, nextRecords, List.map_take, List.map_drop, map_readDirent_procRecords,
    h.delivered, List.take_add]

theorem toNat_offset (h : ListingInv s) (hcall : ListingCall info s.kernel t) :
    (kernelAfter info s.kernel t).procDirOffset.toNat = s.kernel.procDirOffset.toNat +
        fitting t.frame.a2 (procDirEntries.drop s.kernel.procDirOffset.toNat) 0 ∧
      (kernelAfter info s.kernel t).procDirOffset.toNat ≤ procDirents.length := by
  have hfit := fitting_le t.frame.a2 (procDirEntries.drop s.kernel.procDirOffset.toNat) 0
  have hle := h.offset_le
  have hnine : procDirEntries.length = 9 := rfl
  rw [List.length_drop] at hfit
  rw [length_procDirents] at hle ⊢
  have hsum : (kernelAfter info s.kernel t).procDirOffset.toNat =
      s.kernel.procDirOffset.toNat +
        fitting t.frame.a2 (procDirEntries.drop s.kernel.procDirOffset.toNat) 0 := by
    rw [hcall.offset, UInt32.toNat_add, UInt32.toNat_ofNat']
    omega
  exact ⟨hsum, by omega⟩

theorem step (h : ListingInv s) (hstep : listingStep info s t = some s') : ListingInv s' := by
  rw [listingStep] at hstep
  split_ifs at hstep with ht
  by_cases hbuf : t.frame.a1 = 0
  · obtain ⟨hafter, hsame, herror⟩ := @listing_of_null info s.kernel t ht hbuf
    rw [hafter, Option.map_some, Option.some_inj] at hstep
    rw [← hstep, listed, if_pos herror, List.append_nil]
    exact ⟨hsame.1 ▸ h.isOpen, hsame.2 ▸ h.delivered, hsame.2 ▸ h.offset_le⟩
  · have hcall : ListingCall info s.kernel t := listingCall ht h.isOpen hbuf
    rw [hcall.step, Option.map_some, Option.some_inj] at hstep
    obtain ⟨hoffset, hle⟩ := h.toNat_offset hcall
    rw [← hstep]
    refine ⟨hcall.isOpen ▸ h.isOpen, ?_, hle⟩
    rw [h.append_listed hcall, hoffset]

end ListingInv

/-- What a caller relies on in a call of `getdents64`: the entries delivered are the first ones of
the directory, the bytes returned are records of the length that they carry, each a multiple of
eight, they fit into the buffer and nothing else is written, and zero is returned only
when every entry has been delivered. -/
structure Lists (info : Stage0Info) (s : ListingRun) (t : UserTrap) : Prop where
  isPrefix : s.entries ++ listed info s.kernel t <+: procDirents
  records : ∃ rs : List (List UInt8),
    row (memAfter info s.kernel t) t.frame.a1 (returned info s.kernel t).toNat = rs.flatten ∧
      rs.map readDirent = listed info s.kernel t ∧
      ∀ r ∈ rs, (readDirent r).reclen = r.length ∧ 8 ∣ r.length
  fits : returned info s.kernel t ≤ t.frame.a2
  outside : SameOutside (InBlock t.frame.a1 (returned info s.kernel t).toNat) t.mem
    (memAfter info s.kernel t)
  zero : returned info s.kernel t = 0 → s.entries = procDirents

/-- The buffer has room for the entry that comes next. -/
def HasRoom (s : ListingRun) (count : UInt32) : Prop :=
  ∀ e ∈ procDirents[s.entries.length]?, e.reclen ≤ count.toNat

theorem fitting_eq_zero_iff (count : UInt32) (es : List (String × UInt32 × UInt32)) :
    fitting count es 0 = 0 ↔ ∀ e ∈ es.head?, count < direntReclen e.1 := by
  rcases es with - | ⟨⟨name, ino, type⟩, es⟩
  · exact iff_of_true rfl (by simp)
  · rw [fitting, UInt32.sub_zero]
    simp only [List.head?_cons, Option.mem_def, Option.some_inj, forall_eq']
    by_cases hfull : count < direntReclen name
    · rw [if_pos hfull]
      exact iff_of_true rfl hfull
    · rw [if_neg hfull]
      exact iff_of_false (Nat.succ_ne_zero _) hfull

/-- The next entry of the directory has room exactly if some entry fits. -/
theorem hasRoom_iff {s : ListingRun} (h : ListingInv s) (count : UInt32) :
    HasRoom s count ↔ s.entries = procDirents ∨
      fitting count (procDirEntries.drop s.kernel.procDirOffset.toNat) 0 ≠ 0 := by
  have hall : s.entries = procDirents ↔ procDirEntries[s.kernel.procDirOffset.toNat]? = none := by
    rw [List.getElem?_eq_none_iff, ← length_procDirents, h.delivered, List.take_eq_self_iff]
  rw [hall, HasRoom, h.length_entries, procDirents, List.getElem?_map, List.getElem?_zipIdx, ne_eq,
    fitting_eq_zero_iff, List.head?_drop]
  rcases procDirEntries[s.kernel.procDirOffset.toNat]? with - | e
  · simp
  · simp [UInt32.le_iff_toNat_le]

theorem ListingCall.returned_eq_zero_iff {info : Stage0Info} {g : Stage0} (h : ListingCall info g t)
    : returned info g t = 0 ↔
      fitting t.frame.a2 (procDirEntries.drop g.procDirOffset.toNat) 0 = 0 := by
  have hfit := fitting_le t.frame.a2 (procDirEntries.drop g.procDirOffset.toNat) 0
  have hlength : (nextRecords g t.frame.a2).length =
      fitting t.frame.a2 (procDirEntries.drop g.procDirOffset.toNat) 0 := by
    rw [nextRecords, List.length_take, List.length_drop, procRecords, length_direntRecords,
      ← List.length_drop, min_eq_left hfit]
  have hne : ∀ r ∈ nextRecords g t.frame.a2, r ≠ [] := fun r hr ↦
    (delimited_of_mem_procRecords (mem_procRecords_of_mem_nextRecords hr)).1
  have hle := Records.length_le_length_flatten hne
  rw [← UInt32.toNat_inj, h.ret, UInt32.toNat_zero, ← hlength]
  constructor
  · intro hzero
    exact Nat.le_zero.mp (hzero ▸ hle)
  · intro hzero
    rw [List.eq_nil_of_length_eq_zero hzero]
    rfl

theorem ListingInv.lists_iff {info : Stage0Info} {s : ListingRun} (h : ListingInv s)
    (hcall : ListingCall info s.kernel t) : Lists info s t ↔ HasRoom s t.frame.a2 := by
  rw [hasRoom_iff h, ne_eq, ← hcall.returned_eq_zero_iff]
  constructor
  · intro hlists
    rw [or_iff_not_imp_right, not_not]
    exact hlists.zero
  · intro hroom
    refine ⟨?_, ⟨_, hcall.row_eq, hcall.listed_eq.symm, fun r hr ↦ ?_⟩, hcall.fits, ?_,
      fun hzero ↦ hroom.resolve_right fun hne ↦ hne hzero⟩
    · rw [h.append_listed hcall]
      exact List.take_prefix _ _
    · exact (of_mem_procRecords (mem_procRecords_of_mem_nextRecords hr)).2
    · intro x hx
      rw [hcall.mem]
      refine sameOutside_mem _ _ x fun htouched ↦ hx ?_
      rwa [hcall.ret, ← mem_touches_storeAll]

/-- The trap opens the directory. -/
def OpensDir (t : UserTrap) : Prop :=
  t.frame.scause = 8 ∧ t.frame.a7 = 56 ∧ openTarget t.mem t.frame.a1 = some .dir
  deriving Decidable

theorem listingInv_of_opensDir (h : OpensDir t) (info : Stage0Info) (g : Stage0) :
    ListingInv ⟨kernelAfter info g t, []⟩ := by
  obtain ⟨hcause, hcall, htarget⟩ := h
  have hval := (@openat_call info t hcause hcall g).1
  rw [htarget] at hval
  rw [kernelAfter, hval]
  exact ⟨(by decide : (1 : UInt32) ≠ 0), rfl, Nat.zero_le _⟩

/-- **Listing the directory.** In every state reached by calls of `getdents64` after the directory
has been opened, the next call with a buffer lists it properly exactly if the buffer has room for
the next entry or there is none. -/
theorem lists_iff_hasRoom {info : Stage0Info} {ok : ListingRun → UserTrap → Prop} {g : Stage0}
    {t₀ t : UserTrap} {s : ListingRun} (hopen : OpensDir t₀)
    (h : Runs.Reachable (listingStep info) ok ⟨kernelAfter info g t₀, []⟩ s)
    (ht : IsListing t.frame) (hbuf : t.frame.a1 ≠ 0) :
    Lists info s t ↔ HasRoom s t.frame.a2 := by
  have hinv := h.invariant ListingInv (listingInv_of_opensDir hopen info g)
    fun hs _ hstep ↦ hs.step hstep
  exact hinv.lists_iff (listingCall ht hinv.isOpen hbuf)

/-- A call of `getdents64` with a buffer in the user region. -/
def getdentsCount (count : UInt32) : UserTrap where
  time := 0
  frame := ecall 61 xnuStage0ProcDirFd 0x81000000 count 0
  mem _ := 0

/-- With room for two entries. -/
theorem lists_iff_hasRoom_first :
    Lists ⟨0, 0⟩ ⟨kernelAfter ⟨0, 0⟩ (.initial 0 0 0) (openatPath "/proc"), []⟩
      (getdentsCount 48) := by
  have hrun : Runs.Reachable (listingStep ⟨0, 0⟩) (fun _ _ ↦ True)
      ⟨kernelAfter ⟨0, 0⟩ (.initial 0 0 0) (openatPath "/proc"), []⟩ _ := .start
  refine (lists_iff_hasRoom (by decide) hrun (by decide) (by decide)).mpr ?_
  rintro e ⟨⟩
  decide

/-- With a buffer of 23 bytes, one too few for the first entry, zero is returned at once. -/
theorem listing_ends_early :
    ¬Lists ⟨0, 0⟩ ⟨kernelAfter ⟨0, 0⟩ (.initial 0 0 0) (openatPath "/proc"), []⟩
      (getdentsCount 23) := by
  have hinv := listingInv_of_opensDir (by decide : OpensDir (openatPath "/proc")) ⟨0, 0⟩
    (.initial 0 0 0)
  have hcall : ListingCall ⟨0, 0⟩ _ (getdentsCount 23) :=
    listingCall (by decide) hinv.isOpen (by decide)
  rw [hinv.lists_iff hcall]
  intro hroom
  have hfirst := hroom _ (rfl : procDirents[0]? = some _)
  exact absurd hfirst (by decide)

end CaribeOS
