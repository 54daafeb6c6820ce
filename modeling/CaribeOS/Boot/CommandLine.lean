import CaribeOS.Boot.Bootargs
import CaribeOS.Boot.Elf
import CaribeOS.Foundation.ByteProgram
import CaribeOS.Foundation.CBuffer

/-!
# The command line of the kernel

The booter has the flags of `com.apple.Boot.plist` in the 256 bytes of `xnu_cmdline`. It reads the
boot arguments of the device tree into 128 bytes of its stack and appends them as one more token
(`append_dtb_bootargs` in `hfsplus_boot.c`). What is then in `xnu_cmdline` is what the kernel is
handed, or a default if that is empty.

Here the buffers are buffers: the walk over the tree of `fdt_get_chosen_bootargs` writes the string
it finds into one. It is the walk of `Bootargs` with this string put into the buffer.
-/

namespace CaribeOS.CommandLine

open DeviceTree CBuffer
open FileScript (Buf)
open ByteMemory
open ByteProgram.Prog (row length_row row_succ)
open Bootargs (isBootargs chosenBootargs copied readResult)

/-! ## The functions as they stand in the source -/

/-- The state is the depth and the depth of the node `chosen`, or -1. -/
def bufferReader (out : List UInt8) : Walker (Int × Int) (Int × List UInt8) where
  beginNode s name := .ok (s.1 + 1, if s.1 + 1 = 1 ∧ name = cString "chosen" then s.1 + 1 else s.2)
  endNode s := .ok (s.1 - 1, if s.1 = s.2 then -1 else s.2)
  property s p :=
    if s.1 = s.2 ∧ p.name = cString "bootargs" then
      .error (if (copyFrom out 0 p.value).1 ≠ 0 then 0 else -3, (copyFrom out 0 p.value).2)
    else .ok s
  finish _ := (-4, out)
  unknown _ := (-5, out)

/-- The returned number and the buffer afterwards. -/
def fdtGetChosenBootargs (blob : Option Buf) (out : List UInt8) (fuel : ℕ) :
    Option (Int × List UInt8) :=
  match blob with
  | none => some (-1, out)
  | some dtb =>
    if out.length = 0 then some (-1, out)
    else if word dtb 0 ≠ magicNumber then some (-2, out.set 0 0)
    else (bufferReader (out.set 0 0)).loop dtb fuel (offStruct dtb) (-1, -1)

/-- `sappend_token`: the buffer afterwards. -/
def sappendToken (dst src : List UInt8) : List UInt8 :=
  if dst.length = 0 ∨ src.getD 0 0 = 0 then dst
  else
    let i := (text dst).length
    if dst.length ≤ i + 1 then dst
    else if i ≠ 0 ∧ dst.getD (i - 1) 0 ≠ 32 then (copyFrom (dst.set i 32) (i + 1) src).2
    else (copyFrom dst i src).2

/-- `append_dtb_bootargs`: the command line afterwards. `stack` is what was in `bootargs`. -/
def appendDtbBootargs (blob : Option Buf) (stack cmdOut : List UInt8) (fuel : ℕ) :
    Option (List UInt8) :=
  (fdtGetChosenBootargs blob stack fuel).map fun r ↦
    if r.1 ≠ 0 then cmdOut else sappendToken cmdOut r.2

/-! ## The boot arguments of a tree -/

/-- The properties that stand directly in a node `chosen` below the root, in the order of the
blob. -/
def chosenProperties : Items → List Property
  | .nil => []
  | .prop _ rest => chosenProperties rest
  | .node name body rest =>
    (if name = cString "chosen" then body.own else []) ++ chosenProperties rest

/-- The text of the first `bootargs` among them; none is no text. -/
def bootargsText (body : Items) : List UInt8 :=
  ((chosenProperties body).find? isBootargs).elim [] fun p ↦ text p.value

theorem chosenBootargs_eq (t : Items) :
    chosenBootargs t = (chosenProperties t).find? isBootargs := by
  induction t with
  | nil => rfl
  | prop p rest ih => exact ih
  | node name body rest _ ih =>
    rw [chosenBootargs, chosenProperties, List.find?_append, ih]
    split <;> rfl

theorem copied_eq_fitting (cap : ℕ) (value : List UInt8) : copied cap value = fitting cap value := by
  rw [copied, fitting, text]
  generalize cap - 1 = n
  induction value generalizing n with
  | nil => rw [List.take_nil, List.takeWhile_nil, List.take_nil]
  | cons c value ih =>
    cases n with
    | zero => rfl
    | succ n =>
      rw [List.take_succ_cons, List.takeWhile_cons, List.takeWhile_cons]
      split
      · rw [List.take_succ_cons, ih]
      · rw [List.take_nil]

/-! ## The walk with a buffer -/

/-- The buffer with a string written to its start. -/
def fill (out : List UInt8) (r : Int × List UInt8) : Int × List UInt8 :=
  (r.1, r.2 ++ 0 :: out.drop (r.2.length + 1))

variable {out dst : List UInt8} {n : ℕ} {a : UInt32} {m : Mem}

theorem bufferReader_eq (hout : out ≠ []) :
    bufferReader (out.set 0 0) = (Bootargs.reader out.length).mapResult (fill out) := by
  obtain ⟨c, rest, rfl⟩ := List.exists_cons_of_ne_nil hout
  have hlen : (0 :: rest).length = (c :: rest).length := rfl
  have hcopy : ∀ value, copyFrom (0 :: rest) 0 value
      = ((copied (c :: rest).length value).length,
        (fill (c :: rest) (0, copied (c :: rest).length value)).2) := by
    intro value
    rw [copyFrom_eq (Nat.zero_lt_succ _), Nat.sub_zero, hlen, ← copied_eq_fitting, Nat.zero_add,
      List.take_zero, List.nil_append, fill, List.drop_succ_cons, List.drop_succ_cons]
  have hproperty : (bufferReader (0 :: rest)).property
      = ((Bootargs.reader (c :: rest).length).mapResult (fill (c :: rest))).property := by
    funext s p
    dsimp only [bufferReader, Walker.mapResult, Bootargs.reader]
    rw [hcopy]
    split
    · dsimp only [Except.mapError, fill]
      simp only [ne_eq, List.length_eq_zero_iff]
    · rfl
  exact congrArg (fun f ↦ { bufferReader (0 :: rest) with property := f }) hproperty

/-- **The buffer and the string.** What is read into a buffer is the string that is read, and the
rest of the buffer stays. -/
theorem fdtGetChosenBootargs_eq (b : Buf) (hout : out ≠ []) (fuel : ℕ) :
    fdtGetChosenBootargs (some b) out fuel
      = (Bootargs.fdtGetChosenBootargs (some b) out.length fuel).map (fill out) := by
  have hlen : ¬out.length = 0 := mt List.length_eq_zero_iff.mp hout
  have hset : out.set 0 0 = 0 :: out.drop 1 := by
    obtain ⟨c, rest, rfl⟩ := List.exists_cons_of_ne_nil hout
    rfl
  rw [fdtGetChosenBootargs, Bootargs.fdtGetChosenBootargs, if_neg hlen, if_neg hlen]
  split
  · rw [hset]
    rfl
  · rw [bufferReader_eq hout, Walker.loop_mapResult]

/-- What is promised of a buffer of `cap` bytes that boot arguments were read into. -/
structure ReadsInto (cap : ℕ) (s : List UInt8) (r : Int × List UInt8) : Prop where
  length : r.2.length = cap
  terminated : Terminated r.2
  text : text r.2 = s.take (cap - 1)
  found : s.take (cap - 1) ≠ [] → r.1 = 0
  missing : s.take (cap - 1) = [] → r.1 < 0

theorem readsInto_fill (hout : 0 < out.length) (p : Option Property) :
    ReadsInto out.length (p.elim [] fun p ↦ text p.value) (fill out (readResult out.length p)) := by
  have hfill : ∀ (n : Int) (s : List UInt8), s.length < out.length → 0 ∉ s →
      (fill out (n, s)).2.length = out.length ∧ Terminated (fill out (n, s)).2 ∧
        CBuffer.text (fill out (n, s)).2 = s := by
    intro n s hs hzero
    refine ⟨?_, List.mem_append_right _ List.mem_cons_self, text_append_zero hzero _⟩
    change (s ++ 0 :: out.drop (s.length + 1)).length = out.length
    rw [List.length_append, List.length_cons, List.length_drop]
    omega
  cases p with
  | none =>
    obtain ⟨hlen, hterm, htext⟩ := hfill (-4) [] hout List.not_mem_nil
    exact ⟨hlen, hterm, by rw [readResult, htext, Option.elim_none, List.take_nil],
      fun h ↦ absurd List.take_nil h, fun _ ↦ (by decide : (-4 : Int) < 0)⟩
  | some p =>
    have hcopied := copied_eq_fitting out.length p.value
    obtain ⟨hlen, hterm, htext⟩ := hfill (if copied out.length p.value ≠ [] then 0 else -3)
      (copied out.length p.value) (by rw [hcopied]; exact length_fitting_lt _ hout)
      (by rw [hcopied]; exact not_mem_fitting _ _)
    have hfit : (Option.elim (some p) [] fun p ↦ CBuffer.text p.value).take (out.length - 1)
        = copied out.length p.value := hcopied.symm
    refine ⟨hlen, hterm, by rw [readResult, htext, hfit], ?_, ?_⟩
    · rw [hfit]
      intro hne
      rw [fill, readResult, if_pos hne]
    · rw [hfit]
      intro hnil
      rw [fill, readResult, if_neg (not_not.mpr hnil)]
      exact (by decide : (-3 : Int) < 0)

theorem fdtGetChosenBootargs_yields {b : Buf} {name : List UInt8} {body : Items} {stop : ℕ}
    (h : IsFdt b name body stop) {out : List UInt8} (hout : 0 < out.length) :
    Yields (fdtGetChosenBootargs (some b) out)
      (fill out (readResult out.length ((chosenProperties body).find? isBootargs))) := by
  have hyields := (Bootargs.fdtGetChosenBootargs_yields h hout).map (fill out)
  have heq : fdtGetChosenBootargs (some b) out
      = fun fuel ↦ (Bootargs.fdtGetChosenBootargs (some b) out.length fuel).map (fill out) :=
    funext (fdtGetChosenBootargs_eq b (List.length_pos_iff.mp hout))
  rwa [← heq, chosenBootargs_eq] at hyields

/-- A property without its place in the blob. -/
def content (p : Property) : List UInt8 × List UInt8 := (p.name, p.value)

theorem readResult_congr (cap : ℕ) {l l' : List Property}
    (h : l'.map content = l.map content) :
    readResult cap (l'.find? isBootargs) = readResult cap (l.find? isBootargs) := by
  have hfind : ∀ l : List Property, (l.find? isBootargs).map content
      = (l.map content).find? fun c ↦ decide (c.1 = cString "bootargs") := by
    intro l
    rw [List.find?_map]
    rfl
  have hsame : (l'.find? isBootargs).map content = (l.find? isBootargs).map content := by
    rw [hfind, hfind, h]
  have hread : ∀ o : Option Property, readResult cap o
      = ((o.map content).map fun c ↦
          ((if copied cap c.2 ≠ [] then 0 else -3 : Int), copied cap c.2)).getD (-4, []) := by
    rintro (- | p) <;> rfl
  rw [hread, hread, hsame]

/-- **The parser.** For every tree and every buffer of at least one byte: the buffer gets the text of
the first `bootargs` of the nodes `/chosen`, as much of it as fits, and the call succeeds exactly if
that is something. A tree with the same properties in these nodes gives the same. -/
theorem chosen_bootargs_read {b : Buf} {name : List UInt8} {body : Items} {stop : ℕ}
    (h : IsFdt b name body stop) (out : List UInt8) (hout : 1 ≤ out.length) :
    ∃ r, Yields (fdtGetChosenBootargs (some b) out) r ∧
      ReadsInto out.length (bootargsText body) r ∧
      ∀ {b' : Buf} {name' : List UInt8} {body' : Items} {stop' : ℕ}, IsFdt b' name' body' stop' →
        (chosenProperties body').map content = (chosenProperties body).map content →
        Yields (fdtGetChosenBootargs (some b') out) r := by
  refine ⟨_, fdtGetChosenBootargs_yields h hout, readsInto_fill hout _, ?_⟩
  intro b' name' body' stop' h' hsame
  rw [← readResult_congr _ hsame]
  exact fdtGetChosenBootargs_yields h' hout

theorem chosen_bootargs_read_twoChosen :
    ∃ r, Yields (fdtGetChosenBootargs (some Bootargs.twoChosenBlob) [1, 2, 3, 4]) r ∧
      r.1 = 0 ∧ text r.2 = cString "deb" := by
  obtain ⟨r, hyields, hreads, -⟩ :=
    chosen_bootargs_read Bootargs.isFdt_twoChosenBlob [1, 2, 3, 4] (by decide)
  have htext : (bootargsText (Fdt.readTree Bootargs.twoChosenBlob)).take 3 = cString "deb" := by
    decide +kernel
  exact ⟨r, hyields, hreads.found fun hnil ↦ absurd (htext.symm.trans hnil) (by decide),
    hreads.text.trans htext⟩

/-! ## Appending a token -/

/-- A blank, unless there is nothing before it or a blank already. -/
def separator (s : List UInt8) : List UInt8 := if s = [] ∨ s.getLast? = some 32 then [] else [32]

theorem getD_zero_eq_zero_iff (src : List UInt8) : src.getD 0 0 = 0 ↔ text src = [] := by
  cases src with
  | nil => exact ⟨fun _ ↦ rfl, fun _ ↦ rfl⟩
  | cons c src =>
    by_cases hc : c = 0
    · rw [hc, text_cons_zero]
      exact ⟨fun _ ↦ rfl, fun _ ↦ rfl⟩
    · rw [text_cons_of_ne hc]
      exact ⟨fun h ↦ absurd h hc, fun h ↦ absurd h (List.cons_ne_nil _ _)⟩

/-- The test for the blank looks at the last character. -/
theorem separator_text (h : Terminated dst) :
    separator (text dst)
      = if (text dst).length ≠ 0 ∧ dst.getD ((text dst).length - 1) 0 ≠ 32 then [32] else [] := by
  obtain ⟨rest, hrest⟩ := h.exists_eq
  rw [separator]
  by_cases hnil : text dst = []
  · rw [if_pos (.inl hnil), if_neg (by rw [hnil]; exact fun h ↦ h.1 rfl)]
  · have hpos : 0 < (text dst).length := List.length_pos_iff.mpr hnil
    have hlast : dst.getD ((text dst).length - 1) 0 = (text dst).getLast hnil := by
      rw [List.getLast_eq_getElem, ← List.getD_eq_getElem _ 0 (Nat.sub_lt hpos Nat.one_pos),
        ← List.getD_append _ (0 :: rest) _ _ (Nat.sub_lt hpos Nat.one_pos), ← hrest]
    rw [hlast, List.getLast?_eq_getLast_of_ne_nil hnil]
    by_cases hblank : (text dst).getLast hnil = 32
    · rw [if_pos (.inr (congrArg some hblank)), if_neg fun h ↦ h.2 hblank]
    · rw [if_neg, if_pos ⟨Nat.pos_iff_ne_zero.mp hpos, hblank⟩]
      rintro (h | h)
      · exact hnil h
      · exact hblank (Option.some_inj.mp h)

theorem copyFrom_spec {dst src s : List UInt8} {i : ℕ} (hi : i < dst.length) (hs : dst.take i = s)
    (hzero : 0 ∉ s) :
    (copyFrom dst i src).2.length = dst.length ∧ Terminated (copyFrom dst i src).2 ∧
      text (copyFrom dst i src).2 = (s ++ text src).take (dst.length - 1) := by
  have hlen : s.length = i := by rw [← hs, List.length_take_of_le hi.le]
  have hfit := length_fitting_lt src (Nat.sub_pos_of_lt hi)
  rw [copyFrom_eq hi, hs]
  refine ⟨?_, List.mem_append_right _ List.mem_cons_self, ?_⟩
  · rw [List.length_append, List.length_append, List.length_cons, List.length_drop, hlen]
    omega
  · rw [text_append_zero, List.take_append, List.take_of_length_le (by omega), hlen, fitting,
      Nat.sub_right_comm]
    rw [List.mem_append, not_or]
    exact ⟨hzero, not_mem_fitting _ _⟩

theorem sappendToken_spec {src : List UInt8} (h : Terminated dst) (hsrc : text src ≠ []) :
    (sappendToken dst src).length = dst.length ∧ Terminated (sappendToken dst src) ∧
      text (sappendToken dst src)
        = (text dst ++ separator (text dst) ++ text src).take (dst.length - 1) := by
  have hlt := h.length_text_lt
  have htake := take_length_text dst
  have hguard : ¬(dst.length = 0 ∨ src.getD 0 0 = 0) := by
    rintro (hzero | hzero)
    · omega
    · exact hsrc ((getD_zero_eq_zero_iff src).mp hzero)
  rw [sappendToken, if_neg hguard]
  by_cases hfull : dst.length ≤ (text dst).length + 1
  · -- nothing fits behind the string
    rw [if_pos hfull, List.append_assoc, List.take_append_of_le_length (by omega),
      List.take_of_length_le (by omega)]
    exact ⟨rfl, h, rfl⟩
  · rw [if_neg hfull, separator_text h]
    by_cases hblank : (text dst).length ≠ 0 ∧ dst.getD ((text dst).length - 1) 0 ≠ 32
    · rw [if_pos hblank, if_pos hblank]
      have hset : (dst.set (text dst).length 32).length = dst.length := List.length_set
      have htakeSet : (dst.set (text dst).length 32).take ((text dst).length + 1)
          = text dst ++ [32] := by
        rw [List.take_add_one, List.take_set_of_le (le_refl _), List.getElem?_set_self hlt, htake]
        rfl
      have hzero : 0 ∉ text dst ++ [32] := by
        rw [List.mem_append, not_or]
        exact ⟨not_mem_text dst, by decide⟩
      have hcopy := @copyFrom_spec _ src _ _ (by rw [hset]; omega) htakeSet hzero
      rwa [hset] at hcopy
    · rw [if_neg hblank, if_neg hblank, List.append_nil]
      exact copyFrom_spec hlt htake (not_mem_text dst)

/-! ## The command line -/

/-- The size of the buffer for the boot arguments on the stack, and that of `xnu_cmdline`. -/
def bootargsSize : ℕ := 128
def cmdlineSize : ℕ := 256

/-- The flags, and the boot arguments behind them as far as both buffers have room. -/
def commandLine (flags bootargs : List UInt8) : List UInt8 :=
  if bootargs = [] then flags
  else (flags ++ separator flags ++ bootargs.take 127).take 255

/-- What the kernel is handed instead of an empty line. -/
def handedLine (line : List UInt8) : List UInt8 := if line = [] then defaultCmdline else line

theorem appendDtbBootargs_spec {b : Buf} {name : List UInt8} {body : Items} {stop : ℕ}
    (h : IsFdt b name body stop) {stack cmd : List UInt8} (hstack : stack.length = bootargsSize)
    (hlen : cmd.length = cmdlineSize) (hcmd : Terminated cmd) :
    ∃ cmd', Yields (appendDtbBootargs (some b) stack cmd) cmd' ∧ cmd'.length = cmdlineSize ∧
      Terminated cmd' ∧ text cmd' = commandLine (text cmd) (bootargsText body) := by
  have hpos : 0 < stack.length := by
    rw [hstack]
    decide
  obtain ⟨r, hyields, hreads⟩ : ∃ r, Yields (fdtGetChosenBootargs (some b) stack) r ∧
      ReadsInto bootargsSize (bootargsText body) r :=
    ⟨_, fdtGetChosenBootargs_yields h hpos, hstack ▸ readsInto_fill hpos _⟩
  have hnil : (bootargsText body).take 127 = [] ↔ bootargsText body = [] := by
    rw [List.take_eq_nil_iff]
    exact or_iff_right (by decide)
  refine ⟨_, hyields.map fun r ↦ if r.1 ≠ 0 then cmd else sappendToken cmd r.2, ?_⟩
  rw [commandLine]
  by_cases hnone : bootargsText body = []
  · rw [if_pos (hreads.missing (hnil.mpr hnone)).ne, if_pos hnone]
    exact ⟨hlen, hcmd, rfl⟩
  · have hne : (bootargsText body).take 127 ≠ [] := mt hnil.mp hnone
    have htext : text r.2 = (bootargsText body).take 127 := hreads.text
    have hspec := sappendToken_spec hcmd (by rw [htext]; exact hne)
    rw [if_neg (not_not.mpr (hreads.found hne)), if_neg hnone]
    rwa [hlen, htext] at hspec

theorem slen_eq (m : Mem) (a : UInt32) {fuel : ℕ} (hn : n ≤ fuel) (hterm : Terminated (row m a n)) :
    slen m a fuel = .ofNat (text (row m a n)).length := by
  induction n generalizing a fuel with
  | zero => exact absurd hterm List.not_mem_nil
  | succ n ih =>
    obtain ⟨fuel, rfl⟩ : ∃ k, fuel = k + 1 := ⟨fuel - 1, by omega⟩
    rw [row_succ] at hterm ⊢
    rw [slen]
    by_cases hzero : m a = 0
    · rw [if_pos hzero, hzero, text_cons_zero]
      rfl
    · have hrest : Terminated (row m (a + 1) n) :=
        (List.mem_cons.mp hterm).resolve_left (Ne.symm hzero)
      rw [if_neg hzero, ih (a + 1) (by omega) hrest, text_cons_of_ne hzero, List.length_cons,
        UInt32.ofNat_add, UInt32.add_comm]
      rfl

theorem row_congr {m' : Mem} (hn : n ≤ 4294967296) (h : ∀ x, InBlock a n x → m x = m' x) :
    row m a n = row m' a n := by
  refine List.map_congr_left fun k hk ↦ h _ (inBlock_add a (List.mem_range.mp hk) ?_)
  exact (List.mem_range.mp hk).trans_le hn

theorem row_defaultIfEmpty (hterm : Terminated (row m a 256)) :
    Terminated (row (defaultIfEmpty a m) a 256) ∧
      text (row (defaultIfEmpty a m) a 256) = handedLine (text (row m a 256)) := by
  rw [defaultIfEmpty, handedLine]
  by_cases hzero : m a = 0
  · have hempty : text (row m a 256) = [] := by
      rw [row_succ, hzero, text_cons_zero]
    have hrow : row (writeBytes m a 17 fun k ↦ defaultCmdline.getD k 0) a 17
        = defaultCmdline ++ [0] := by
      have hbytes : row (writeBytes m a 17 fun k ↦ defaultCmdline.getD k 0) a 17
          = (List.range 17).map fun k ↦ defaultCmdline.getD k 0 := by
        refine List.map_congr_left fun k hk ↦ ?_
        have hk' := List.mem_range.mp hk
        exact writeBytes_add m a _ hk' (by omega)
      rw [hbytes]
      decide
    have hsplit := ByteProgram.Prog.row_add
      (writeBytes m a 17 fun k ↦ defaultCmdline.getD k 0) a 17 239
    rw [hrow, List.append_assoc] at hsplit
    rw [if_pos hzero, if_pos hempty, hsplit]
    exact ⟨List.mem_append_right _ List.mem_cons_self, text_append_zero (by decide) _⟩
  · have hne : text (row m a 256) ≠ [] := by
      rw [row_succ, text_cons_of_ne hzero]
      exact List.cons_ne_nil _ _
    rw [if_neg hzero, if_neg hne]
    exact ⟨hterm, rfl⟩

/-- What the kernel is handed, from the memory that has the command line. -/
theorem writeBootArgs_line (image : BooterImage) (pack : Mem → UInt32 → CaribeBootArgs)
    (hartid dtb initrdBase initrdSize low high : UInt32) {m : Mem}
    (hterm : Terminated (row m image.xnuCmdline 256)) :
    ∀ result, result = writeBootArgs image pack hartid dtb initrdBase initrdSize low high m →
      text (row result.2 image.xnuCmdline 256) = handedLine (text (row m image.xnuCmdline 256)) ∧
        result.1.commandLineSize.toNat
          = (handedLine (text (row m image.xnuCmdline 256))).length + 1 := by
  rintro result rfl
  obtain ⟨hdefault, hline⟩ := row_defaultIfEmpty hterm
  constructor
  · rw [← hline]
    exact congrArg text (row_congr (by decide) fun x hx ↦
      writeBootArgs_cmdline image pack hartid dtb initrdBase initrdSize low high m hx)
  · have hsame : row (defaultIfEmpty image.xnuCmdline
        (writeBytes m image.xnuBootArgs 128 fun _ ↦ 0)) image.xnuCmdline 256
        = row (defaultIfEmpty image.xnuCmdline m) image.xnuCmdline 256 := by
      refine row_congr (by decide) fun x hx ↦ defaultIfEmpty_congr (fun y hy ↦ ?_) hx
      exact sameOutside_writeBytes _ _ _ _ _ (image.args_cmdline.symm _ hy)
    have hlt := hdefault.length_text_lt
    rw [length_row, hline] at hlt
    change (slen _ image.xnuCmdline 4294967296 + 1).toNat = _
    rw [slen_eq _ _ (n := 256) (by decide) (by rw [hsame]; exact hdefault), hsame, hline,
      UInt32.toNat_add, UInt32.toNat_ofNat']
    change (_ % 2 ^ 32 + 1) % 2 ^ 32 = _
    omega

/-- **The command line.** For every tree and every flags in `xnu_cmdline`: the boot arguments of the
tree are appended as `commandLine` says, the string ends inside its 256 bytes, and the kernel is
handed it, or the default for an empty one, with its length and the zero byte as the size. -/
theorem command_line_assembled {b : Buf} {name : List UInt8} {body : Items} {stop : ℕ}
    (h : IsFdt b name body stop) {stack cmd : List UInt8} (hstack : stack.length = bootargsSize)
    (hlen : cmd.length = cmdlineSize) (hcmd : Terminated cmd) :
    ∃ cmd', Yields (appendDtbBootargs (some b) stack cmd) cmd' ∧ cmd'.length = cmdlineSize ∧
      Terminated cmd' ∧ text cmd' = commandLine (text cmd) (bootargsText body) ∧
      ∀ (image : BooterImage) (pack : Mem → UInt32 → CaribeBootArgs)
        (hartid dtb initrdBase initrdSize low high : UInt32) (m : Mem),
        row m image.xnuCmdline cmdlineSize = cmd' →
        ∃ args m', writeBootArgs image pack hartid dtb initrdBase initrdSize low high m = (args, m') ∧
          text (row m' image.xnuCmdline cmdlineSize) = handedLine (text cmd') ∧
          args.commandLineSize.toNat = (handedLine (text cmd')).length + 1 := by
  obtain ⟨cmd', hyields, hlen', hterm, htext⟩ := appendDtbBootargs_spec h hstack hlen hcmd
  refine ⟨cmd', hyields, hlen', hterm, htext, ?_⟩
  rintro image pack hartid dtb initrdBase initrdSize low high m rfl
  exact ⟨_, _, rfl, writeBootArgs_line image pack hartid dtb initrdBase initrdSize low high hterm _ rfl⟩

theorem command_line_assembled_uartBlob :
    ∃ cmd', Yields (appendDtbBootargs (some Fdt.uartBlob) (List.replicate 128 7)
        (cString "-v" ++ List.replicate 254 0)) cmd' ∧ text cmd' = cString "-v debug" := by
  obtain ⟨cmd', hyields, -, -, htext, -⟩ := @command_line_assembled _ _ _ _ Fdt.isFdt_uartBlob
    (List.replicate 128 7) (cString "-v" ++ List.replicate 254 0) List.length_replicate
    (by rw [List.length_append, List.length_replicate]; rfl) (by decide)
  have hbootargs : bootargsText (Fdt.readTree Fdt.uartBlob) = cString "debug" := by decide +kernel
  refine ⟨cmd', hyields, htext.trans ?_⟩
  rw [hbootargs]
  decide

/-- A tree whose boot arguments are longer than the buffer on the stack. -/
def longBlob : Buf :=
  blobOf Fdt.sampleStrings (encodeNode [] (
    encodeNode (cString "chosen") (Fdt.bootargsOf (List.replicate 128 97 ++ [0]))))

theorem isFdt_longBlob : IsFdt longBlob [] (Fdt.readTree longBlob) 228 :=
  isFdt_of_readItems (show readItems longBlob 100 _ = _ by decide +kernel) (by decide +kernel)

/-- One character of them is missing in a line that has room for it. And the size that is handed on
for an empty line is not that of an empty line. -/
theorem bootargs_cut_short :
    (IsFdt longBlob [] (Fdt.readTree longBlob) 228 ∧
      bootargsText (Fdt.readTree longBlob) = List.replicate 128 97 ∧
      ∃ cmd', Yields (appendDtbBootargs (some longBlob) (List.replicate 128 0)
        (List.replicate 256 0)) cmd' ∧ text cmd' = List.replicate 127 97) ∧
    ∃ args m', writeBootArgs booter (fun _ _ ↦ ⟨0, 0, 0, 0⟩) 0 0 0 0 0 0 (fun _ ↦ 0) = (args, m') ∧
      args.commandLineSize.toNat = 17 := by
  have htext : bootargsText (Fdt.readTree longBlob) = List.replicate 128 97 := by decide +kernel
  refine ⟨⟨isFdt_longBlob, htext, ?_⟩, ?_⟩
  · obtain ⟨cmd', hyields, -, -, hline⟩ := @appendDtbBootargs_spec _ _ _ _ isFdt_longBlob
      (List.replicate 128 0) (List.replicate 256 0) List.length_replicate List.length_replicate
      (by decide)
    refine ⟨cmd', hyields, hline.trans ?_⟩
    rw [htext]
    decide
  · have hrow : row (fun _ ↦ 0) booter.xnuCmdline 256 = List.replicate 256 0 := by
      rw [row, List.map_const', List.length_range]
    refine ⟨_, _, rfl, ?_⟩
    obtain ⟨-, hsize⟩ := @writeBootArgs_line booter (fun _ _ ↦ ⟨0, 0, 0, 0⟩) 0 0 0 0 0 0 (fun _ ↦ 0)
      (by rw [hrow]; decide) _ rfl
    exact hsize

end CaribeOS.CommandLine
