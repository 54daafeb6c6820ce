import CaribeOS.Boot.Elf
import CaribeOS.Boot.FdtMin

/-!
# The device tree as the kernel reads it

The kernel walks over the device tree again (`fdt_probe` in `kernel_xnu_entry.c`). It does not follow
the nodes: it looks at each property by itself, inside the bounds that the header gives, and adds to a
count that begins with one. The booter counts the nodes.

Offsets are 32-bit numbers here, with the wrap-around of the source. A count is not, for there are
fewer properties than bytes.
-/

namespace CaribeOS.FdtProbe

open DeviceTree Fdt
open FileScript (Buf)
open ByteMemory (cString)

/-! ## The walk as it stands in the source -/

/-- `xnu_stage0_info_t`, without the fields that `stage0_init` leaves zero. -/
structure XnuStage0Info where
  hartid : UInt32
  dtb : UInt32
  dtbSize : UInt32
  timebaseHz : UInt32
  cpuCount : ℕ
  memBase : UInt32
  memSize : UInt32
  uartBase : UInt32
  plicBase : UInt32
  aclintBase : UInt32
  kernelBase : UInt32
  kernelSize : UInt32
  memoryMapPaddr : UInt32
  memoryMapCount : UInt32
  memoryMapDescSize : UInt32

def add32 (a b : ℕ) : ℕ := (a + b) % 4294967296

def align4Word (v : ℕ) : ℕ := add32 v 3 / 4 * 4

/-- The loop over a name, with as many rounds as there are bytes up to the end. -/
def skipName (b : Buf) (stop : ℕ) : ℕ → ℕ → ℕ
  | 0, off => off
  | n + 1, off => if off < stop ∧ b.byte off ≠ 0 then skipName b stop n (off + 1) else off

/-- The value begins with the three characters; `streq_len` does not look behind them. -/
def CountsAsCpu (p : Property) : Prop :=
  p.name = cString "device_type" ∧ 3 ≤ p.value.length ∧ p.value.take 3 = cString "cpu"
  deriving Decidable

/-- What is done with a property. -/
def noteProperty (info : XnuStage0Info) (p : Property) : XnuStage0Info :=
  if p.name = cString "timebase-frequency" ∧ 4 ≤ p.value.length then
    { info with timebaseHz := .ofNat (firstCell p.value) }
  else if CountsAsCpu p then { info with cpuCount := info.cpuCount + 1 }
  else info

/-- The loop over the tokens. -/
def probeLoop (b : Buf) (stop : ℕ) : ℕ → ℕ → XnuStage0Info → Option XnuStage0Info
  | 0, _, _ => none
  | fuel + 1, off, info =>
    if stop < add32 off 4 then some info
    else
      let token := word b off
      let off := add32 off 4
      if token = beginNodeToken then
        probeLoop b stop fuel (align4Word (add32 (skipName b stop (stop - off) off) 1)) info
      else if token = endNodeToken ∨ token = nopToken then probeLoop b stop fuel off info
      else if token = propToken then
        if stop < add32 off 8 then some info
        else
          let len := word b off
          let nameoff := word b (off + 4)
          let off := add32 off 8
          if stop < add32 off len ∨ sizeStrings b ≤ nameoff then some info
          else
            probeLoop b stop fuel (align4Word (add32 off len))
              (noteProperty info ⟨cstring b (offStrings b + nameoff), bytesIn b off len, off⟩)
      else some info

/-- The end of the structure block as the kernel takes it. -/
def structEnd (b : Buf) : ℕ :=
  if sizeStruct b ≠ 0 then add32 (offStruct b) (sizeStruct b) else totalSize b

def fdtProbe (dtb : Buf) (info : XnuStage0Info) (fuel : ℕ) : Option XnuStage0Info :=
  if info.dtb = 0 ∨ word dtb 0 ≠ magicNumber then some info
  else
    probeLoop dtb (structEnd dtb) fuel (offStruct dtb)
      { info with dtbSize := .ofNat (totalSize dtb) }

/-- The variables before the walk. -/
def stage0Defaults (hartid dtb : UInt32) : XnuStage0Info where
  hartid
  dtb
  dtbSize := 0
  timebaseHz := 10000000
  cpuCount := 1
  memBase := 0x80000000
  memSize := 256 * 1024 * 1024
  uartBase := 0x10000000
  plicBase := 0x0c000000
  aclintBase := 0x02000000
  kernelBase := 0
  kernelSize := 0
  memoryMapPaddr := 0
  memoryMapCount := 0
  memoryMapDescSize := 0

/-- What the boot arguments change of them. -/
def takeArgs (info : XnuStage0Info) (args : XnuBootArgs) : XnuStage0Info :=
  if args.magic = riscv32CaribebootxMagic ∧ 1 ≤ args.version then
    { info with
      hartid := args.hartid
      dtb := if args.dtbPaddr ≠ 0 then args.dtbPaddr else info.dtb
      dtbSize := args.dtbSize
      memBase := args.memBase
      memSize := args.memSize
      uartBase := if args.uartBase ≠ 0 then args.uartBase else 0x10000000
      plicBase := args.plicBase
      aclintBase := args.aclintBase
      kernelBase := args.kernelBase
      kernelSize := args.kernelSize
      memoryMapPaddr := args.memoryMapPaddr
      memoryMapCount := args.memoryMapCount
      memoryMapDescSize := args.memoryMapDescSize }
  else info

/-- The variables from the arguments of the kernel; `none` is the null pointer. -/
def fromArgs (hartid dtb : UInt32) (args : Option XnuBootArgs) : XnuStage0Info :=
  match args with
  | none => stage0Defaults hartid dtb
  | some args => takeArgs (stage0Defaults hartid dtb) args

/-- `blobAt` are the bytes of the memory from an address on. -/
def stage0Init (blobAt : UInt32 → Buf) (hartid dtb : UInt32) (args : Option XnuBootArgs)
    (fuel : ℕ) : Option XnuStage0Info :=
  let info := fromArgs hartid dtb args
  (fdtProbe (blobAt info.dtb) info fuel).map fun info ↦
    if info.cpuCount = 0 then { info with cpuCount := 1 } else info

/-! ## The walk over a tree -/

theorem add32_of_lt {a b : ℕ} (h : a + b < 4294967296) : add32 a b = a + b := Nat.mod_eq_of_lt h

theorem align4Word_of_le {v stop : ℕ} (h : align4 v ≤ stop) (hstop : stop + 4 < 4294967296) :
    align4Word v = align4 v := by
  have := le_align4 v
  rw [align4Word, add32_of_lt (by omega), align4]

/-- Up to the zero behind a name the loop finds no zero, nor the end. -/
theorem skipName_eq {b : Buf} {stop off n : ℕ} (hn : stop ≤ off + n)
    (hstop : off + (cstring b off).length < stop) (hsize : stop ≤ b.size) :
    skipName b stop n off = off + (cstring b off).length := by
  induction n generalizing off with
  | zero => omega
  | succ n ih =>
    rw [skipName]
    by_cases hbyte : b.byte off = 0
    · rw [if_neg (fun h ↦ h.2 hbyte), cstring_of_eq hbyte, List.length_nil, Nat.add_zero]
    · have hoff : off < b.size := by omega
      rw [cstring_of_ne hoff hbyte, List.length_cons] at hstop ⊢
      rw [if_pos ⟨by omega, hbyte⟩, ih (by omega) (by omega)]
      omega

/-- From the first token of some items the loop comes to the token behind them, and has noted the
properties of all nodes on the way. -/
theorem probeLoop_encodes {b : Buf} {o stop limit : ℕ} {items : Items} (h : Encodes b o items stop)
    (hlimit : stop + 4 ≤ limit) (hsize : limit ≤ b.size) (hword : b.size < 4294967296)
    (info : XnuStage0Info) :
    ∃ n, ∀ fuel, probeLoop b limit (fuel + n) o info =
      probeLoop b limit fuel stop (items.props.foldl noteProperty info) := by
  induction h generalizing info with
  | nil o => exact ⟨0, fun _ ↦ rfl⟩
  | @nop o stop items token rest ih =>
    obtain ⟨n, hn⟩ := ih hlimit info
    have hle := rest.le
    refine ⟨n + 1, fun fuel ↦ ?_⟩
    rw [← Nat.add_assoc, probeLoop, add32_of_lt (by omega), if_neg (by omega), token]
    exact hn fuel
  | @prop o stop items token named rest ih =>
    obtain ⟨n, hn⟩ := ih hlimit (noteProperty info (propertyAt b o))
    have hle := rest.le
    have halign := le_align4 (o + 12 + word b (o + 4))
    rw [behindProperty] at hle
    have hname : ¬sizeStrings b ≤ word b (o + 8) := by omega
    refine ⟨n + 1, fun fuel ↦ ?_⟩
    rw [← Nat.add_assoc, probeLoop, add32_of_lt (by omega), if_neg (by omega), token,
      if_neg (by decide), if_neg (by decide), if_pos rfl, add32_of_lt (by omega),
      if_neg (by omega)]
    dsimp only
    rw [add32_of_lt (by omega : o + 4 + 8 + word b (o + 4) < 4294967296),
      if_neg (by rintro (h | h); exacts [by omega, hname h]),
      align4Word_of_le (by exact hle) (by omega)]
    exact hn fuel
  | @node o mid stop body items token inside close rest ihb ihr =>
    have hle := rest.le
    have hmid := inside.le
    have halign := le_align4 (o + 4 + (cstring b (o + 4)).length + 1)
    rw [behindName] at hmid
    obtain ⟨n, hn⟩ := ihb (by omega) info
    obtain ⟨k, hk⟩ := ihr hlimit (body.props.foldl noteProperty info)
    refine ⟨k + 1 + n + 1, fun fuel ↦ ?_⟩
    rw [show fuel + (k + 1 + n + 1) = fuel + k + 1 + n + 1 by omega, probeLoop,
      add32_of_lt (by omega), if_neg (by omega), token, if_pos rfl,
      skipName_eq (by omega) (by omega) hsize, add32_of_lt (by omega),
      align4Word_of_le hmid (by omega), ← behindName, hn, probeLoop, add32_of_lt (by omega),
      if_neg (by omega), close, if_neg (by decide), if_pos (.inl rfl), hk, Items.props,
      List.foldl_append]

theorem cpuCount_foldl (ps : List Property) (info : XnuStage0Info) :
    (ps.foldl noteProperty info).cpuCount = info.cpuCount + ps.countP fun p ↦ CountsAsCpu p := by
  induction ps generalizing info with
  | nil => rfl
  | cons p ps ih =>
    rw [List.foldl_cons, ih, List.countP_cons]
    have hnote : (noteProperty info p).cpuCount =
        info.cpuCount + if CountsAsCpu p then 1 else 0 := by
      rw [noteProperty]
      by_cases htime : p.name = cString "timebase-frequency" ∧ 4 ≤ p.value.length
      · have hcpu : ¬CountsAsCpu p := by
          rintro ⟨hname, -, -⟩
          exact absurd (htime.1.symm.trans hname) (by decide)
        rw [if_pos htime, if_neg hcpu, Nat.add_zero]
      · rw [if_neg htime]
        by_cases hcpu : CountsAsCpu p
        · rw [if_pos hcpu, if_pos hcpu]
        · rw [if_neg hcpu, if_neg hcpu, Nat.add_zero]
    simp only [decide_eq_true_eq]
    omega

theorem word_lt (b : Buf) (o : ℕ) : word b o < 4294967296 := by
  have := (b.byte o).toNat_lt
  have := (b.byte (o + 1)).toNat_lt
  have := (b.byte (o + 2)).toNat_lt
  have := (b.byte (o + 3)).toNat_lt
  rw [word]
  omega

theorem le_structEnd {b : Buf} {name : List UInt8} {body : Items} {stop : ℕ}
    (h : IsFdt b name body stop) : stop + 4 ≤ structEnd b ∧ structEnd b ≤ b.size := by
  have hinside := h.inside
  have hsize : b.size < 4294967296 := h.total ▸ word_lt b 4
  rw [structEnd]
  split
  case isTrue hne =>
    have hstruct := h.struct_size.resolve_left hne
    rw [add32_of_lt (by omega)]
    omega
  case isFalse => rw [h.total]; omega

/-- The kernel ends with one more than the properties it counts. -/
theorem stage0Init_yields {b : Buf} {name : List UInt8} {body : Items} {stop : ℕ}
    (h : IsFdt b name body stop) {blobAt : UInt32 → Buf} {hartid dtb : UInt32}
    {args : Option XnuBootArgs} (hblob : blobAt (fromArgs hartid dtb args).dtb = b)
    (hnull : (fromArgs hartid dtb args).dtb ≠ 0) :
    ∃ info, Yields (stage0Init blobAt hartid dtb args) info ∧
      info.cpuCount = 1 + (tree name body).props.countP fun p ↦ CountsAsCpu p := by
  obtain ⟨hend, hsize⟩ := le_structEnd h
  have hword : b.size < 4294967296 := h.total ▸ word_lt b 4
  have hone : (fromArgs hartid dtb args).cpuCount = 1 := by
    rcases args with - | args
    · rfl
    · dsimp only [fromArgs, takeArgs]
      split <;> rfl
  generalize hstart : fromArgs hartid dtb args = start at hblob hnull hone
  obtain ⟨n, hn⟩ := probeLoop_encodes h.root hend hsize hword
    { start with dtbSize := .ofNat (totalSize b) }
  generalize hlast : (tree name body).props.foldl noteProperty
    { start with dtbSize := .ofNat (totalSize b) } = last at hn
  have hcount : last.cpuCount = 1 + (tree name body).props.countP fun p ↦ CountsAsCpu p := by
    rw [← hlast, cpuCount_foldl, ← hone]
  refine ⟨last, ⟨n + 1, fun fuel hfuel ↦ ?_⟩, hcount⟩
  obtain ⟨k, rfl⟩ := Nat.exists_eq_add_of_le' hfuel
  have hprobe : fdtProbe b start (k + (n + 1)) = some last := by
    rw [fdtProbe, if_neg (not_or.mpr ⟨hnull, not_not.mpr h.magic⟩), ← Nat.add_assoc,
      Nat.add_right_comm, hn, probeLoop, add32_of_lt (by omega), if_neg (by omega), h.finish,
      if_neg (by decide), if_neg (by decide), if_neg (by decide)]
  rw [stage0Init, hstart, hblob, hprobe, Option.map_some, if_neg (by omega)]

/-! ## The two counts -/

/-- The nodes whose `device_type` is the string `cpu`. -/
def cpuNodes (t : Items) : ℕ :=
  nodesWith (fun p ↦ p.name = cString "device_type" ∧ p.value = cString "cpu" ++ [0]) t

theorem nodesWith_le (P : Property → Bool) (t : Items) :
    nodesWith P t + t.own.countP P ≤ t.props.countP P := by
  induction t with
  | nil => exact le_rfl
  | prop p rest ih =>
    rw [nodesWith, Items.own, Items.props, List.countP_cons, List.countP_cons]
    omega
  | node name body rest ihb ihr =>
    have hany : (if body.own.any P then 1 else 0) ≤ body.own.countP P := by
      split
      case isTrue h =>
        obtain ⟨p, hp, hP⟩ := List.any_eq_true.mp h
        exact List.countP_pos_iff.mpr ⟨p, hp, hP⟩
      case isFalse => exact Nat.zero_le _
    rw [nodesWith, Items.own, Items.props, List.countP_append]
    omega

theorem nodesWith_le_countP {P Q : Property → Bool} (hPQ : ∀ p, P p → Q p) (t : Items) :
    nodesWith P t ≤ t.props.countP Q := by
  have h := nodesWith_le P t
  have hmono : t.props.countP P ≤ t.props.countP Q := List.countP_mono_left fun p _ ↦ hPQ p
  omega

theorem countsAsCpu_iff (p : Property) :
    CountsAsCpu p ↔ p.name = cString "device_type" ∧ cString "cpu" <+: p.value := by
  have hlength : (cString "cpu").length = 3 := rfl
  rw [CountsAsCpu, List.prefix_iff_eq_take, hlength]
  refine and_congr_right fun _ ↦ ⟨fun h ↦ h.2.symm, fun h ↦ ⟨?_, h.symm⟩⟩
  have := congrArg List.length h
  rw [hlength, List.length_take] at this
  omega

theorem countsAsCpu_of_isCpu {p : Property} (h : IsCpu p) : CountsAsCpu p :=
  (countsAsCpu_iff p).mpr ⟨h.1, (List.prefix_append _ _).trans h.2⟩

/-- **Counting the processors.** The kernel's count of a tree is the booter's, and that of the tree,
exactly where no `device_type` begins with `cpu`: the kernel counts one too many, and so at least two
where the booter counts one. -/
theorem cpu_counts_agree_iff {b : Buf} {name : List UInt8} {body : Items} {stop : ℕ}
    (h : IsFdt b name body stop) (hdepth : (tree name body).depth ≤ 32)
    {blobAt : UInt32 → Buf} {hartid dtb : UInt32} {args : Option XnuBootArgs}
    (hblob : blobAt (fromArgs hartid dtb args).dtb = b)
    (hnull : (fromArgs hartid dtb args).dtb ≠ 0) :
    (∃ info packed, Yields (stage0Init blobAt hartid dtb args) info ∧
        Yields (caribePackBootArgs (fromArgs hartid dtb args).dtb (some b)) packed ∧
        info.cpuCount = packed.ncpus ∧ packed.ncpus = max 1 (cpuNodes (tree name body))) ↔
      ∀ p ∈ (tree name body).props, p.name = cString "device_type" →
        ¬cString "cpu" <+: p.value := by
  obtain ⟨info, hinfo, hcount⟩ := stage0Init_yields h hblob hnull
  have hpack := caribePackBootArgs_yields h (fromArgs hartid dtb args).dtb
  have hbooter : nodesWith (fun p ↦ IsCpu p) (tree name body) ≤
      (tree name body).props.countP fun p ↦ CountsAsCpu p :=
    nodesWith_le_countP (fun p hp ↦ decide_eq_true (countsAsCpu_of_isCpu (of_decide_eq_true hp))) _
  constructor
  · rintro ⟨info', packed', hinfo', hpack', hagree, -⟩ p hp hname hcpu
    obtain rfl := hinfo.unique hinfo'
    obtain rfl := hpack.unique hpack'
    have hpos : 0 < (tree name body).props.countP fun p ↦ CountsAsCpu p :=
      List.countP_pos_iff.mpr ⟨p, hp, decide_eq_true ((countsAsCpu_iff p).mpr ⟨hname, hcpu⟩)⟩
    rw [hcount, packed] at hagree
    dsimp only at hagree
    rw [countCpus_result hdepth] at hagree
    omega
  · intro hnone
    have hzero : (tree name body).props.countP (fun p ↦ decide (CountsAsCpu p)) = 0 := by
      rw [List.countP_eq_zero]
      intro p hp hcpu
      obtain ⟨hname, hprefix⟩ := (countsAsCpu_iff p).mp (of_decide_eq_true hcpu)
      exact hnone p hp hname hprefix
    have htree : cpuNodes (tree name body) ≤
        (tree name body).props.countP fun p ↦ CountsAsCpu p := by
      refine nodesWith_le_countP (fun p hp ↦ ?_) _
      obtain ⟨hname, hvalue⟩ := of_decide_eq_true hp
      exact decide_eq_true (countsAsCpu_of_isCpu ⟨hname, hvalue ▸ List.prefix_rfl⟩)
    refine ⟨info, _, hinfo, hpack, ?_, ?_⟩
    · rw [hcount, packed]
      dsimp only
      rw [countCpus_result hdepth]
      omega
    · rw [packed]
      dsimp only
      rw [countCpus_result hdepth]
      omega

theorem cpu_counts_agree_uartBlob :
    (fromArgs 0 0x8fe00000 none).dtb ≠ 0 ∧
      ∃ info packed, Yields (stage0Init (fun _ ↦ uartBlob) 0 0x8fe00000 none) info ∧
        Yields (caribePackBootArgs 0x8fe00000 (some uartBlob)) packed ∧
        info.cpuCount = packed.ncpus ∧
        packed.ncpus = max 1 (cpuNodes (tree [] (readTree uartBlob))) :=
  ⟨by decide, (@cpu_counts_agree_iff uartBlob [] (readTree uartBlob) 180 isFdt_uartBlob
    (by decide +kernel) (fun _ ↦ uartBlob) 0 0x8fe00000 none rfl (by decide)).mpr
    (by decide +kernel)⟩

/-- A machine with one processor. -/
def oneCpuBlob : Buf :=
  blobOf sampleStrings (encodeNode [] (encodeNode (cString "cpus")
    (encodeNode (cString "cpu@0") (deviceTypeOf "cpu"))))

theorem isFdt_oneCpuBlob : IsFdt oneCpuBlob [] (readTree oneCpuBlob) 116 :=
  isFdt_of_readItems (show readItems oneCpuBlob 100 _ = _ by decide +kernel) (by decide +kernel)

/-- The kernel counts two processors where there is one. -/
theorem one_cpu_counted_twice :
    IsFdt oneCpuBlob [] (readTree oneCpuBlob) 116 ∧
      cpuNodes (tree [] (readTree oneCpuBlob)) = 1 ∧
      (∃ packed, Yields (caribePackBootArgs 0x8fe00000 (some oneCpuBlob)) packed ∧
        packed.ncpus = 1) ∧
      ∃ info, Yields (stage0Init (fun _ ↦ oneCpuBlob) 0 0x8fe00000 none) info ∧
        info.cpuCount = 2 := by
  obtain ⟨info, hinfo, hcount⟩ := @stage0Init_yields oneCpuBlob [] (readTree oneCpuBlob) 116
    isFdt_oneCpuBlob (fun _ ↦ oneCpuBlob) 0 0x8fe00000 none rfl (by decide)
  refine ⟨isFdt_oneCpuBlob, by decide +kernel,
    ⟨_, caribePackBootArgs_yields isFdt_oneCpuBlob 0x8fe00000,
      by decide +kernel⟩, info, hinfo, ?_⟩
  rw [hcount]
  decide +kernel

end CaribeOS.FdtProbe
