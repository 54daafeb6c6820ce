import CaribeOS.Stage0.Listing

/-!
# What the calls say about a path

Five calls look at a path: `faccessat` and `statfs64` by `linux_known_path`, `fstatat64` by
`linux_path_metadata`, `statx` by both, and `openat` by a list of its own, whose result
`fstat64` then describes. Each is a chain of comparisons with fixed texts.

For a path that is a string in the caller's memory a chain amounts to looking the string up in a
list (`val_userStreqCase`), so that the calls can be compared list against list.
-/

namespace CaribeOS

open ByteMemory ByteProgram ByteProgram.Prog

/-! ## Looking up a path -/

/-- The string `text` stands at `a`. -/
structure PathAt (m : Mem) (a : UInt32) (text : List UInt8) : Prop where
  ne_null : a ≠ 0
  no_zero : 0 ∉ text
  bytes : row m a (text.length + 1) = text ++ [0]

/-- What stands beside a text in a list of cases. -/
def caseOf {β : Type} (text : List UInt8) (cases : List (String × β)) : Option β :=
  (cases.find? fun c ↦ cString c.1 = text).map Prod.snd

variable {a : UInt32} {m : Mem} {text : List UInt8}

theorem val_userStreqFrom {ts : List UInt8} {i : ℕ} (htext : 0 ∉ text)
    (hrow : row m a (text.length + 1) = text ++ [0]) (hts : 0 ∉ ts) (hi : i + ts.length ≤ 128) :
    (userStreqFrom a i ts).val m = decide (ts = text) := by
  rw [row_succ] at hrow
  induction ts generalizing a text i with
  | nil =>
    rw [userStreqFrom, if_neg (by omega), val, val_pure]
    rcases text with - | ⟨c, text⟩
    · have hzero : m a = 0 := (List.cons.inj hrow).1
      rw [hzero]
      rfl
    · have hc : m a ≠ 0 := by
        rw [(List.cons.inj hrow).1]
        exact fun h ↦ htext (h ▸ List.mem_cons_self)
      simp [hc]
  | cons t ts ih =>
    rw [userStreqFrom, if_neg (by omega), val, val_ite, val_pure]
    rcases text with - | ⟨c, text⟩
    · have hzero : m a = 0 := (List.cons.inj hrow).1
      have ht : (0 : UInt8) ≠ t := fun h ↦ hts (h ▸ List.mem_cons_self)
      rw [hzero, if_pos ht]
      simp
    · obtain ⟨hc, hrest⟩ := List.cons.inj hrow
      rw [List.length_cons] at hi
      rw [List.length_cons, row_succ] at hrest
      rw [ih (fun h ↦ htext (List.mem_cons_of_mem _ h)) hrest
        (fun h ↦ hts (List.mem_cons_of_mem _ h)) (by omega), hc]
      by_cases heq : c = t
      · simp [heq]
      · simp [heq, Ne.symm heq]

/-- The texts of a chain are strings that the comparison does not cut. -/
def PlainCases {β : Type} (cases : List (String × β)) : Prop :=
  ∀ c ∈ cases, 0 ∉ cString c.1 ∧ (cString c.1).length ≤ 128

theorem val_userStreqCase {β : Type} (h : PathAt m a text) {cases : List (String × β)}
    (hcases : PlainCases cases) : (userStreqCase a cases).val m = caseOf text cases := by
  induction cases with
  | nil => rfl
  | cons c cases ih =>
    obtain ⟨name, v⟩ := c
    obtain ⟨⟨hzero, hlen⟩, hrest⟩ := List.forall_mem_cons.mp hcases
    have heq := val_userStreqFrom h.no_zero h.bytes hzero (i := 0) (by omega)
    rw [userStreqCase, val_bind, linuxUserStreq, mem_userStreqFrom, heq, caseOf, List.find?_cons]
    by_cases hname : cString name = text
    · simp [hname]
    · simp only [hname, decide_false, Bool.false_eq_true, if_false]
      exact ih hrest

theorem val_linuxPathMetadata_congr {m' : Mem} {a' : UInt32} (h : PathAt m a text)
    (h' : PathAt m' a' text) (kernelSize : UInt32) :
    (linuxPathMetadata kernelSize a).val m = (linuxPathMetadata kernelSize a').val m' := by
  rw [linuxPathMetadata, linuxPathMetadata, val_userStreqCase h ?plain, val_userStreqCase h' ?plain]
  simp only [PlainCases, List.forall_mem_cons]
  decide

/-- The metadata that `fstat64` gives for what `openat` opens. -/
def targetMetadata : ProcTarget → PathMetadata
  | .file number =>
    ⟨linuxModeIfreg ||| linuxMode0644, strlen (linuxProcFileContent number),
      if number = 4 then 11 else if number = 3 then 10 else if number = 5 then 12
        else if number = 6 then 13 else if number = 2 then 9 else 8⟩
  | .dir => ⟨linuxModeIfdir ||| linuxMode0755, 0, 5⟩

theorem plainCases_openatCases : PlainCases openatCases := by
  simp only [PlainCases, openatCases, List.forall_mem_cons]
  decide

/-- What can be opened is described as `fstat64` will describe it. -/
theorem val_linuxPathMetadata_of_openTarget (h : PathAt m a text) {target : ProcTarget}
    (htarget : openTarget m a = some target) (kernelSize : UInt32) :
    (linuxPathMetadata kernelSize a).val m = some (targetMetadata target) := by
  rw [openTarget, if_pos h.ne_null, val_userStreqCase h plainCases_openatCases, caseOf,
    Option.map_eq_some_iff] at htarget
  obtain ⟨c, hfind, rfl⟩ := htarget
  have htext : cString c.1 = text := by simpa using List.find?_some hfind
  have hmem := List.mem_of_find?_eq_some hfind
  rw [linuxPathMetadata, val_userStreqCase h ?plain, ← htext]
  case plain =>
    simp only [PlainCases, List.forall_mem_cons]
    decide
  simp only [openatCases, List.mem_cons, List.not_mem_nil, or_false] at hmem
  rcases hmem with rfl | rfl | rfl | rfl | rfl | rfl | rfl
  all_goals rfl

/-! ## What the caller reads -/

/-- Mode, size and inode number as they are read from a structure. -/
structure Seen where
  mode : ℕ
  size : ℕ
  ino : ℕ
deriving DecidableEq

/-- From a `struct stat64`. -/
def stat64At (m : Mem) (a : UInt32) : Seen where
  mode := leNat (row m (a + 16) 4)
  size := leNat (row m (a + 48) 8)
  ino := leNat (row m (a + 8) 8)

/-- From a `struct statx`. -/
def statxAt (m : Mem) (a : UInt32) : Seen where
  mode := leNat (row m (a + 28) 2)
  size := leNat (row m (a + 40) 8)
  ino := leNat (row m (a + 32) 8)

def PathMetadata.seen (md : PathMetadata) : Seen := ⟨md.mode.toNat, md.size.toNat, md.ino.toNat⟩

theorem leNat_wordBytes (v : UInt32) (rest : List UInt8) :
    leNat (wordBytes v ++ rest) = v.toNat + 4294967296 * leNat rest := by
  have hv := v.toNat_lt
  have hbyte : ∀ k, (byteOf v k).toNat = v.toNat / 256 ^ k % 256 := fun k ↦ UInt8.toNat_ofNat'
  change (byteOf v 0).toNat + 256 * ((byteOf v 1).toNat + 256 * ((byteOf v 2).toNat +
    256 * ((byteOf v 3).toNat + 256 * leNat rest))) = _
  simp only [hbyte]
  omega

theorem length_wordBytes (v : UInt32) : (wordBytes v).length = 4 := rfl

def stat64Fields (md : PathMetadata) : List (UInt32 × List UInt8) :=
  [(0, wordBytes 1 ++ wordBytes 0), (8, wordBytes md.ino ++ wordBytes 0), (16, wordBytes md.mode),
    (20, wordBytes 1), (48, wordBytes md.size ++ wordBytes 0), (56, wordBytes 4096),
    (64, wordBytes (if md.size = 0 then 0 else 1) ++ wordBytes 0)]

def statxFields (md : PathMetadata) : List (UInt32 × List UInt8) :=
  [(0, wordBytes 0x07ff), (4, wordBytes 4096), (16, wordBytes 1),
    (28, [md.mode.toUInt16.toUInt8, (md.mode.toUInt16 >>> 8).toUInt8]), (32, wordBytes md.ino),
    (40, wordBytes md.size), (56, wordBytes 0x07ff), (140, wordBytes 1), (144, wordBytes 1)]

theorem mem_linuxCopyoutStat64 (a : UInt32) (md : PathMetadata) (m : Mem) :
    (linuxCopyoutStat64 a md).mem m =
      (storeFields a (stat64Fields md)).mem ((linuxZeroUser a 104).mem m) := by
  simp only [linuxCopyoutStat64, stat64Fields, mem_storeFields_cons, mem_storeFields_nil, mem_bind,
    mem_linuxStore32, mem_linuxStore64, UInt32.add_zero]

theorem mem_linuxCopyoutStatx (a : UInt32) (md : PathMetadata) (m : Mem) :
    (linuxCopyoutStatx a md).mem m =
      (storeFields a (statxFields md)).mem ((linuxZeroUser a 256).mem m) := by
  simp only [linuxCopyoutStatx, statxFields, mem_storeFields_cons, mem_storeFields_nil, mem_bind,
    mem_linuxStore32, linuxStore16, UInt32.add_zero]

theorem stat64At_linuxCopyoutStat64 (a : UInt32) (md : PathMetadata) (m : Mem) :
    stat64At ((linuxCopyoutStat64 a md).mem m) a = md.seen := by
  rw [mem_linuxCopyoutStat64]
  generalize (linuxZeroUser a 104).mem m = m'
  have hino : row ((storeFields a (stat64Fields md)).mem m') (a + 8) 8 =
      wordBytes md.ino ++ wordBytes 0 :=
    row_mem_storeFields a ((stat64Fields md).take 1) (by simp [length_wordBytes])
      (by simp [FieldApart, length_wordBytes]) m'
  have hmode : row ((storeFields a (stat64Fields md)).mem m') (a + 16) 4 = wordBytes md.mode :=
    row_mem_storeFields a ((stat64Fields md).take 2) (by simp [length_wordBytes])
      (by simp [FieldApart, length_wordBytes]) m'
  have hsize : row ((storeFields a (stat64Fields md)).mem m') (a + 48) 8 =
      wordBytes md.size ++ wordBytes 0 :=
    row_mem_storeFields a ((stat64Fields md).take 4) (by simp [length_wordBytes])
      (by simp [FieldApart, length_wordBytes]) m'
  rw [stat64At, hino, hmode, hsize, ← List.append_nil (wordBytes md.mode), leNat_wordBytes,
    leNat_wordBytes, leNat_wordBytes]
  rfl

theorem leNat_halfBytes (v : UInt16) : leNat [v.toUInt8, (v >>> 8).toUInt8] = v.toNat := by
  have hv := v.toNat_lt
  change v.toNat % 256 + 256 * ((v.toNat >>> 8) % 256 + 256 * 0) = v.toNat
  omega

theorem row_statx_word (a : UInt32) (md : PathMetadata) (m : Mem) {o v : UInt32}
    (hfields : ∃ fields fields', statxFields md = fields ++ (o, wordBytes v) :: fields' ∧
      ∀ f ∈ fields', FieldApart o.toNat 4 f)
    (hzeros : ∀ f ∈ statxFields md, FieldApart (o + 4).toNat 4 f) (hend : o.toNat + 8 ≤ 256) :
    leNat (row ((linuxCopyoutStatx a md).mem m) (a + o) 8) = v.toNat := by
  obtain ⟨fields, fields', heq, hapart⟩ := hfields
  have ho : (o + 4).toNat = o.toNat + 4 := by
    rw [UInt32.toNat_add, show (4 : UInt32).toNat = 4 from rfl, Nat.mod_eq_of_lt (by omega)]
  have hword : row ((linuxCopyoutStatx a md).mem m) (a + o) 4 = wordBytes v := by
    rw [mem_linuxCopyoutStatx, heq]
    exact row_mem_storeFields a fields (by rw [length_wordBytes]; omega) hapart _
  have hlength : (List.replicate 256 (0 : UInt8)).length = 256 := List.length_replicate
  have hzero : row ((storeAll a (List.replicate 256 0)).mem m) (a + .ofNat (o + 4).toNat) 4 =
      ((List.replicate 256 0).drop (o + 4).toNat).take 4 :=
    row_mem_storeAll_part a (by omega) (by omega) m
  rw [List.drop_replicate, List.take_replicate, min_eq_left (by omega), UInt32.ofNat_toNat,
    show List.replicate 256 (0 : UInt8) = List.replicate (256 : UInt32).toNat 0 from rfl,
    ← linuxZeroUser, ← row_mem_storeFields_apart a (by omega) hzeros, ← mem_linuxCopyoutStatx,
    ← UInt32.add_assoc] at hzero
  rw [row_add _ _ 4 4, hword, show UInt32.ofNat 4 = 4 from rfl, hzero, leNat_wordBytes]
  rfl

theorem statxAt_linuxCopyoutStatx (a : UInt32) {md : PathMetadata} (hmode : md.mode.toNat < 65536)
    (m : Mem) : statxAt ((linuxCopyoutStatx a md).mem m) a = md.seen := by
  have hino := row_statx_word a md m
    ⟨(statxFields md).take 4, _, rfl, by simp [FieldApart, length_wordBytes]⟩
    (by simp [statxFields, FieldApart, length_wordBytes]) (by decide)
  have hsize := row_statx_word a md m
    ⟨(statxFields md).take 5, _, rfl, by simp [FieldApart, length_wordBytes]⟩
    (by simp [statxFields, FieldApart, length_wordBytes]) (by decide)
  have hhalf : row ((linuxCopyoutStatx a md).mem m) (a + 28) 2 =
      [md.mode.toUInt16.toUInt8, (md.mode.toUInt16 >>> 8).toUInt8] := by
    rw [mem_linuxCopyoutStatx]
    exact row_mem_storeFields a ((statxFields md).take 3) (by simp)
      (by simp [FieldApart, length_wordBytes]) _
  rw [statxAt, hino, hsize, hhalf, leNat_halfBytes, UInt32.toNat_toUInt16, Nat.mod_eq_of_lt hmode]
  rfl

/-! ## The calls -/

/-- The trap is a call of that number with the path at that address. -/
structure CallsOn (t : UserTrap) (number path : UInt32) (text : List UInt8) : Prop where
  cause : t.frame.scause = 8
  call : t.frame.a7 = number
  pathAt : PathAt t.mem path text

section Calls

variable {info : Stage0Info} {g : Stage0} {t : UserTrap} {text : List UInt8}

theorem returned_eq {h : Handler} (ht : t.frame.scause = 8)
    (hlookup : syscalls.lookup t.frame.a7 = some h) {g' : Stage0} {ret : UInt32}
    (hval : (h info t.time (g.enter t.frame) t.frame).val t.mem = (g', some (t.frame.ret ret))) :
    returned info g t = ret := by
  rw [returned, dispatch_call ht hlookup, hval]
  rfl

/-- A call that succeeds for the known paths and returns `-ENOENT` for the others. -/
theorem returned_eq_zero_iff {h : Handler} (ht : t.frame.scause = 8)
    (hlookup : syscalls.lookup t.frame.a7 = some h) {path : UInt32}
    (hval : (h info t.time (g.enter t.frame) t.frame).val t.mem = (g.enter t.frame,
      some (t.frame.ret (if (linuxKnownPath path).val t.mem then 0 else linuxErrno linuxEnoent)))) :
    returned info g t = 0 ↔ ((linuxPathMetadata info.kernelSize path).val t.mem).isSome := by
  rw [val_linuxPathMetadata_isSome, returned_eq ht hlookup hval]
  split_ifs with hknown
  · exact iff_of_true rfl hknown
  · exact iff_of_false (by decide) hknown

theorem faccessat_exists (h : CallsOn t 48 t.frame.a1 text) :
    returned info g t = 0 ↔ ((linuxPathMetadata info.kernelSize t.frame.a1).val t.mem).isSome := by
  have hlookup : syscalls.lookup t.frame.a7 = some sysFaccessat := by rw [h.call]; rfl
  apply returned_eq_zero_iff h.cause hlookup
  by_cases hknown : (linuxKnownPath t.frame.a1).val t.mem = true
  · simp [sysFaccessat, h.pathAt.ne_null, hknown]
  · simp [sysFaccessat, h.pathAt.ne_null, hknown]

theorem statfs64_exists (h : CallsOn t 43 t.frame.a0 text) (hbuf : t.frame.a1 ≠ 0) :
    returned info g t = 0 ↔ ((linuxPathMetadata info.kernelSize t.frame.a0).val t.mem).isSome := by
  have hlookup : syscalls.lookup t.frame.a7 = some sysStatfs64 := by rw [h.call]; rfl
  apply returned_eq_zero_iff h.cause hlookup
  by_cases hknown : (linuxKnownPath t.frame.a0).val t.mem = true
  · simp [sysStatfs64, h.pathAt.ne_null, hbuf, hknown]
  · simp [sysStatfs64, h.pathAt.ne_null, hbuf, hknown]

theorem fstatat64_reports (h : CallsOn t 79 t.frame.a1 text) (hbuf : t.frame.a2 ≠ 0) :
    (returned info g t = 0 ↔
        ((linuxPathMetadata info.kernelSize t.frame.a1).val t.mem).isSome) ∧
      ∀ md ∈ (linuxPathMetadata info.kernelSize t.frame.a1).val t.mem,
        stat64At (memAfter info g t) t.frame.a2 = md.seen := by
  have hlookup : syscalls.lookup t.frame.a7 = some sysFstatat64 := by rw [h.call]; rfl
  rcases hfound : (linuxPathMetadata info.kernelSize t.frame.a1).val t.mem with - | md
  · have hval : (sysFstatat64 info t.time (g.enter t.frame) t.frame).val t.mem =
        (g.enter t.frame, some (t.frame.ret (linuxErrno linuxEnoent))) := by
      simp [sysFstatat64, h.pathAt.ne_null, hbuf, hfound]
    rw [returned_eq h.cause hlookup hval]
    exact ⟨by decide, fun md hmd ↦ absurd hmd (Option.not_mem_none md)⟩
  · have hval : (sysFstatat64 info t.time (g.enter t.frame) t.frame).val t.mem =
        (g.enter t.frame, some (t.frame.ret 0)) := by
      simp [sysFstatat64, h.pathAt.ne_null, hbuf, hfound]
    have hmem : (sysFstatat64 info t.time (g.enter t.frame) t.frame).mem t.mem =
        (linuxCopyoutStat64 t.frame.a2 md).mem t.mem := by
      simp [sysFstatat64, h.pathAt.ne_null, hbuf, hfound]
    rw [returned_eq h.cause hlookup hval, memAfter, dispatch_call h.cause hlookup, hmem,
      stat64At_linuxCopyoutStat64]
    exact ⟨iff_of_true rfl rfl, fun md' hmd ↦ congrArg _ (Option.some_inj.mp hmd)⟩

/-- The modes of stage0 fit the sixteen bits of `statx`. -/
theorem mode_lt {kernelSize : UInt32} (h : PathAt m a text) {md : PathMetadata}
    (hmd : (linuxPathMetadata kernelSize a).val m = some md) : md.mode.toNat < 65536 := by
  rw [linuxPathMetadata, val_userStreqCase h ?plain, caseOf, Option.map_eq_some_iff] at hmd
  case plain =>
    simp only [PlainCases, List.forall_mem_cons]
    decide
  obtain ⟨c, hfind, rfl⟩ := hmd
  have hmem := List.mem_of_find?_eq_some hfind
  revert hmem
  clear hfind
  revert c
  simp only [List.forall_mem_cons]
  decide

theorem statx_reports (h : CallsOn t 291 t.frame.a1 text) (hbuf : t.frame.a4 ≠ 0) :
    (returned info g t = 0 ↔
        ((linuxPathMetadata info.kernelSize t.frame.a1).val t.mem).isSome) ∧
      ∀ md ∈ (linuxPathMetadata info.kernelSize t.frame.a1).val t.mem,
        statxAt (memAfter info g t) t.frame.a4 = md.seen := by
  have hlookup : syscalls.lookup t.frame.a7 = some sysStatx := by rw [h.call]; rfl
  have hknown := val_linuxPathMetadata_isSome info.kernelSize t.frame.a1 t.mem
  rcases hfound : (linuxPathMetadata info.kernelSize t.frame.a1).val t.mem with - | md
  · rw [hfound, Option.isSome_none] at hknown
    have hval : (sysStatx info t.time (g.enter t.frame) t.frame).val t.mem =
        (g.enter t.frame, some (t.frame.ret (linuxErrno linuxEnoent))) := by
      simp [sysStatx, h.pathAt.ne_null, hbuf, ← hknown]
    rw [returned_eq h.cause hlookup hval]
    exact ⟨by decide, fun md hmd ↦ absurd hmd (Option.not_mem_none md)⟩
  · have hmode := mode_lt h.pathAt hfound
    rw [hfound, Option.isSome_some] at hknown
    have hval : (sysStatx info t.time (g.enter t.frame) t.frame).val t.mem =
        (g.enter t.frame, some (t.frame.ret 0)) := by
      simp [sysStatx, h.pathAt.ne_null, hbuf, ← hknown]
    have hmem : (sysStatx info t.time (g.enter t.frame) t.frame).mem t.mem =
        (linuxCopyoutStatx t.frame.a4 md).mem t.mem := by
      simp [sysStatx, h.pathAt.ne_null, hbuf, ← hknown, val_statxMetadata, hfound]
    rw [returned_eq h.cause hlookup hval, memAfter, dispatch_call h.cause hlookup, hmem,
      statxAt_linuxCopyoutStatx _ hmode]
    exact ⟨iff_of_true rfl rfl, fun md' hmd ↦ congrArg _ (Option.some_inj.mp hmd)⟩

/-- The descriptor for the target is open for it. -/
def IsOpenFor (g : Stage0) : ProcTarget → Prop
  | .file number => g.procOpen ≠ 0 ∧ g.procFile = number
  | .dir => g.procDirOpen ≠ 0

/-- `fstat64` on an open descriptor describes what it was opened for. -/
theorem fstat64_reports {target : ProcTarget} (ht : t.frame.scause = 8) (hcall : t.frame.a7 = 80)
    (hbuf : t.frame.a1 ≠ 0) (hfd : t.frame.a0 = descriptorOf target) (hopen : IsOpenFor g target) :
    returned info g t = 0 ∧
      stat64At (memAfter info g t) t.frame.a1 = (targetMetadata target).seen := by
  have hlookup : syscalls.lookup t.frame.a7 = some sysFstat64 := by rw [hcall]; rfl
  have hspec : (sysFstat64 info t.time (g.enter t.frame) t.frame).val t.mem =
        (g.enter t.frame, some (t.frame.ret 0)) ∧
      (sysFstat64 info t.time (g.enter t.frame) t.frame).mem t.mem =
        (linuxCopyoutStat64 t.frame.a1 (targetMetadata target)).mem t.mem := by
    rcases target with number | -
    · have hfile : t.frame.a0 = xnuStage0ProcFd ∧ (g.enter t.frame).procOpen ≠ 0 := ⟨hfd, hopen.1⟩
      have hnumber : (g.enter t.frame).procFile = number := hopen.2
      simp [sysFstat64, hbuf, hfile, hnumber, targetMetadata]
    · have hnot : ¬(t.frame.a0 = xnuStage0ProcFd ∧ (g.enter t.frame).procOpen ≠ 0) := by
        rw [hfd]
        exact fun h ↦ absurd h.1 (by decide)
      have hdir : t.frame.a0 = xnuStage0ProcDirFd ∧ (g.enter t.frame).procDirOpen ≠ 0 :=
        ⟨hfd, hopen⟩
      simp only [sysFstat64, val_bind, mem_bind, mem_puts, mem_putdec, if_neg hbuf, if_neg hnot,
        if_pos hdir, val_pure, mem_pure, targetMetadata, and_self]
  rw [returned_eq ht hlookup hspec.1, memAfter, dispatch_call ht hlookup, hspec.2]
  exact ⟨rfl, stat64At_linuxCopyoutStat64 _ _ _⟩

/-- After a successful `openat` the descriptor that it returned is open for what the path names. -/
theorem openat_opens (h : CallsOn t 56 t.frame.a1 text) (herror : ¬IsError (returned info g t)) :
    ∃ target, openTarget t.mem t.frame.a1 = some target ∧
      returned info g t = descriptorOf target ∧ IsOpenFor (kernelAfter info g t) target := by
  rcases @returned_openat info t h.cause h.call g with ⟨target, htarget, hfd, -⟩ | ⟨-, herror'⟩
  · refine ⟨target, htarget, hfd, ?_⟩
    rw [kernelAfter, (@openat_call info t h.cause h.call g).1, htarget]
    rcases target with number | -
    · exact ⟨(by decide : (1 : UInt32) ≠ 0), rfl⟩
    · exact (by decide : (1 : UInt32) ≠ 0)
  · exact absurd herror' herror

end Calls

/-- **One story.** Whatever the kernel's variables are in each of the calls, `statfs64`, `fstatat64`
and `statx` succeed for a path exactly if `faccessat` does; `statx` and `fstatat64` then report the
same; and if the path can be opened, `fstat64` on the descriptor reports that, too. -/
theorem stat_calls_agree {info : Stage0Info} {text : List UInt8} {g₁ g₂ g₃ g₄ : Stage0}
    {access fs path extended : UserTrap} (haccess : CallsOn access 48 access.frame.a1 text)
    (hfs : CallsOn fs 43 fs.frame.a0 text) (hfsBuf : fs.frame.a1 ≠ 0)
    (hpath : CallsOn path 79 path.frame.a1 text) (hpathBuf : path.frame.a2 ≠ 0)
    (hextended : CallsOn extended 291 extended.frame.a1 text)
    (hextendedBuf : extended.frame.a4 ≠ 0) :
    (returned info g₂ fs = 0 ↔ returned info g₁ access = 0) ∧
      (returned info g₃ path = 0 ↔ returned info g₁ access = 0) ∧
      (returned info g₄ extended = 0 ↔ returned info g₁ access = 0) ∧
      (returned info g₁ access = 0 →
        statxAt (memAfter info g₄ extended) extended.frame.a4 =
          stat64At (memAfter info g₃ path) path.frame.a2) ∧
      ∀ (g₅ : Stage0) (opening described : UserTrap),
        CallsOn opening 56 opening.frame.a1 text → ¬IsError (returned info g₅ opening) →
        described.frame.scause = 8 → described.frame.a7 = 80 → described.frame.a1 ≠ 0 →
        described.frame.a0 = returned info g₅ opening →
          returned info g₁ access = 0 ∧
            returned info (kernelAfter info g₅ opening) described = 0 ∧
            stat64At (memAfter info (kernelAfter info g₅ opening) described) described.frame.a1 =
              stat64At (memAfter info g₃ path) path.frame.a2 := by
  obtain ⟨hpathExists, hpathSeen⟩ := @fstatat64_reports info g₃ path text hpath hpathBuf
  obtain ⟨hextendedExists, hextendedSeen⟩ :=
    @statx_reports info g₄ extended text hextended hextendedBuf
  have haccessExists := @faccessat_exists info g₁ access text haccess
  have hfsExists := @statfs64_exists info g₂ fs text hfs hfsBuf
  -- all of them look the same string up
  have hsame : ∀ {m : Mem} {a : UInt32}, PathAt m a text →
      (linuxPathMetadata info.kernelSize a).val m =
        (linuxPathMetadata info.kernelSize path.frame.a1).val path.mem :=
    fun h ↦ val_linuxPathMetadata_congr h hpath.pathAt _
  rw [hsame haccess.pathAt] at haccessExists
  rw [hsame hfs.pathAt] at hfsExists
  rw [hsame hextended.pathAt] at hextendedExists hextendedSeen
  refine ⟨hfsExists.trans haccessExists.symm, hpathExists.trans haccessExists.symm,
    hextendedExists.trans haccessExists.symm, fun hzero ↦ ?_, ?_⟩
  · obtain ⟨md, hmd⟩ := Option.isSome_iff_exists.mp (haccessExists.mp hzero)
    rw [hextendedSeen md hmd, hpathSeen md hmd]
  · intro g₅ opening described hopening herror hcause hcall hbuf hfd
    obtain ⟨target, htarget, hreturned, hopen⟩ := openat_opens hopening herror
    have hmd := val_linuxPathMetadata_of_openTarget hopening.pathAt htarget info.kernelSize
    rw [hsame hopening.pathAt] at hmd
    obtain ⟨hzero, hseen⟩ := @fstat64_reports info _ described target hcause hcall hbuf
      (hfd.trans hreturned) hopen
    refine ⟨haccessExists.mpr (by rw [hmd]; rfl), hzero, ?_⟩
    rw [hseen, hpathSeen _ hmd]

/-- The path `/proc/stat` in the user region. -/
def procStatMem : Mem := fun x ↦ (cString "/proc/stat").getD (x - 0x81000000).toNat 0

/-- A call with that path and a buffer behind it. -/
def statTrap (number a0 a1 a2 a4 : UInt32) : UserTrap where
  time := 0
  frame := { ecall number a0 a1 a2 0 with a4 := a4 }
  mem := procStatMem

theorem stat_calls_agree_proc_stat :
    (returned ⟨0, 0⟩ (.initial 0 0 0) (statTrap 43 0x81000000 0x81000100 0 0) = 0 ↔
        returned ⟨0, 0⟩ (.initial 0 0 0) (statTrap 48 0 0x81000000 0 0) = 0) ∧
      ∀ described : UserTrap, described.frame.scause = 8 → described.frame.a7 = 80 →
        described.frame.a1 ≠ 0 → described.frame.a0 = xnuStage0ProcFd →
          stat64At (memAfter ⟨0, 0⟩ (kernelAfter ⟨0, 0⟩ (.initial 0 0 0)
              (statTrap 56 0 0x81000000 0 0)) described) described.frame.a1 =
            stat64At (memAfter ⟨0, 0⟩ (.initial 0 0 0)
              (statTrap 79 0 0x81000000 0x81000100 0)) 0x81000100 := by
  have hpath : PathAt procStatMem 0x81000000 (cString "/proc/stat") :=
    ⟨by decide, by decide, by decide⟩
  have htarget : openTarget procStatMem 0x81000000 = some (.file 6) := by decide
  have hopened : returned ⟨0, 0⟩ (.initial 0 0 0) (statTrap 56 0 0x81000000 0 0) =
      xnuStage0ProcFd := by
    rw [(openat_call rfl rfl _).2]
    exact congrArg (fun target ↦ (afterOpenat _ target).2) htarget
  obtain ⟨hfs, -, -, -, hopen⟩ := @stat_calls_agree ⟨0, 0⟩ _ (.initial 0 0 0) (.initial 0 0 0)
    (.initial 0 0 0) (.initial 0 0 0) (statTrap 48 0 0x81000000 0 0)
    (statTrap 43 0x81000000 0x81000100 0 0) (statTrap 79 0 0x81000000 0x81000100 0)
    (statTrap 291 0 0x81000000 0 0x81000100) ⟨rfl, rfl, hpath⟩ ⟨rfl, rfl, hpath⟩ (by decide)
    ⟨rfl, rfl, hpath⟩ (by decide) ⟨rfl, rfl, hpath⟩ (by decide)
  refine ⟨hfs, fun described hcause hcall hbuf hfd ↦ ?_⟩
  exact (hopen (.initial 0 0 0) (statTrap 56 0 0x81000000 0 0) described
    ⟨rfl, rfl, hpath⟩ (by rw [hopened]; decide) hcause hcall hbuf
    (hfd.trans hopened.symm)).2.2

end CaribeOS
