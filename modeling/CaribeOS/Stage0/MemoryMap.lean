import CaribeOS.Boot.MemoryMap

/-!
# The memory map as the kernel reads it

`stage0_print_memory_map` (`kernel_xnu_entry.c`) walks over the ranges that the booter handed over
and derives the totals that the VM seed is made from. On a map that tiles the RAM window the totals
are those of the window; when the window holds no whole page the map is empty, the walk does not
start and the totals stay as `stage0_init` cleared them.
-/

namespace CaribeOS

open IntervalSweep

/-! ## The walk as it stands in the source -/

def xnuStage0MemoryMapMax : UInt32 := 16

/-- `sizeof(riscv32_xnu_memory_range_t)`. -/
def xnuMemoryRangeSize : UInt32 := 40

/-- What `stage0_print_memory_map` reads of the boot arguments. -/
structure CaribebootxHeader where
  magic : UInt32
  version : UInt32

/-- The part of `xnu_stage0_info_t` that `stage0_print_memory_map` reads and writes; `args` is
`none` for a null pointer. -/
structure MemoryMapInfo where
  args : Option CaribebootxHeader
  memoryMapPaddr : UInt32
  memoryMapCount : UInt32
  memoryMapDescSize : UInt32
  memoryFirstFree : UInt32
  memoryMaxEnd : UInt32
  memoryConventionalPages : UInt32
  memoryReservedPages : UInt32
  memoryOverlaps : UInt32

/-- The variables of the loop: the locals of the function and the two fields of `g_info` that the
loop updates. -/
structure MapTotals where
  conventionalPages : UInt64
  reservedPages : UInt64
  previousEnd : UInt64
  overlaps : UInt32
  firstFree : UInt32
  maxEnd : UInt32

/-- The end of a range, in the 64-bit arithmetic of the loop. -/
def XnuMemoryRange.stop (range : XnuMemoryRange) : UInt64 :=
  range.physicalStart + (range.numberOfPages <<< 12)

/-- The body of the loop for range number `i`. -/
def mapTotalsStep (i : ℕ) (st : MapTotals) (range : XnuMemoryRange) : MapTotals where
  conventionalPages := if range.type = xnuEfiConventional
    then st.conventionalPages + range.numberOfPages else st.conventionalPages
  reservedPages := if range.type = xnuEfiConventional
    then st.reservedPages else st.reservedPages + range.numberOfPages
  previousEnd := range.stop
  overlaps := if i ≠ 0 ∧ range.physicalStart < st.previousEnd then st.overlaps + 1 else st.overlaps
  firstFree := if range.type = xnuEfiConventional ∧ st.firstFree = 0
    then range.physicalStart.toUInt32 else st.firstFree
  maxEnd := if st.maxEnd.toUInt64 < range.stop then range.stop.toUInt32 else st.maxEnd

/-- The loop from range number `i` on, with `n` ranges to go. -/
def mapTotalsLoop (rangeAt : ℕ → XnuMemoryRange) : ℕ → ℕ → MapTotals → MapTotals
  | 0, _, st => st
  | n + 1, i, st => mapTotalsLoop rangeAt n (i + 1) (mapTotalsStep i st (rangeAt i))

/-- The test that the boot arguments carry a map. -/
def MemoryMapInfo.available (info : MemoryMapInfo) : Bool :=
  match info.args with
  | none => false
  | some args => args.magic = riscv32CaribebootxMagic ∧ 2 ≤ args.version ∧
      info.memoryMapPaddr ≠ 0 ∧ info.memoryMapCount ≠ 0 ∧
      xnuMemoryRangeSize ≤ info.memoryMapDescSize

/-- The number of ranges the loop visits. -/
def MemoryMapInfo.visited (info : MemoryMapInfo) : UInt32 :=
  if xnuStage0MemoryMapMax < info.memoryMapCount then xnuStage0MemoryMapMax
  else info.memoryMapCount

/-- What the function leaves in `g_info`. -/
def MemoryMapInfo.withTotals (info : MemoryMapInfo) (totals : MapTotals) : MemoryMapInfo :=
  { info with
    memoryFirstFree := totals.firstFree
    memoryMaxEnd := totals.maxEnd
    memoryConventionalPages := totals.conventionalPages.toUInt32
    memoryReservedPages := totals.reservedPages.toUInt32
    memoryOverlaps := totals.overlaps }

/-- `stage0_print_memory_map`, without the printing; `rangeAt` is physical memory, read as a range
at an address. -/
def stage0PrintMemoryMap (rangeAt : UInt32 → XnuMemoryRange) (info : MemoryMapInfo) :
    MemoryMapInfo :=
  if info.available then
    info.withTotals (mapTotalsLoop
      (fun i ↦ rangeAt (info.memoryMapPaddr + UInt32.ofNat i * info.memoryMapDescSize))
      info.visited.toNat 0 ⟨0, 0, 0, 0, info.memoryFirstFree, info.memoryMaxEnd⟩)
  else info

/-! ## The walk over tiles -/

/-- The first Conventional range. -/
def firstConventional (map : List XnuMemoryRange) : Option XnuMemoryRange :=
  map.find? fun r ↦ r.type = xnuEfiConventional

/-- What the loop knows when it arrives at address `a`: nothing overlapped, the pages counted and
the largest end are below `a`, and `a` is where the previous range ended. -/
structure TotalsInv (i a : ℕ) (st : MapTotals) : Prop where
  overlaps : st.overlaps = 0
  previousEnd : i = 0 ∨ st.previousEnd.toNat = a
  maxEnd : st.maxEnd.toNat ≤ a
  pages : 4096 * (st.conventionalPages.toNat + st.reservedPages.toNat) ≤ a

theorem toNat_stop {r : XnuMemoryRange} (h : r.toSegment.hi < 4294967296) :
    r.stop.toNat = r.toSegment.hi := by
  have hpages : 4096 * r.numberOfPages.toNat < 4294967296 := by
    rw [XnuMemoryRange.toSegment] at h
    dsimp only at h
    omega
  have hshift : (r.numberOfPages <<< 12).toNat = 4096 * r.numberOfPages.toNat := by
    rw [UInt64.toNat_shiftLeft, Nat.shiftLeft_eq]
    change r.numberOfPages.toNat * 4096 % 2 ^ 64 = _
    omega
  rw [XnuMemoryRange.toSegment] at h ⊢
  dsimp only at h ⊢
  rw [XnuMemoryRange.stop, UInt64.toNat_add, hshift]
  omega

section Step

variable {i a : ℕ} {st : MapTotals} {r : XnuMemoryRange}

theorem mapTotalsStep_pages (h : TotalsInv i a st) (hhi : r.toSegment.hi < 4294967296)
    (hlo : r.toSegment.lo = a) :
    (mapTotalsStep i st r).conventionalPages.toNat + (mapTotalsStep i st r).reservedPages.toNat
      = st.conventionalPages.toNat + st.reservedPages.toNat + r.numberOfPages.toNat := by
  have hpages := h.pages
  rw [XnuMemoryRange.toSegment] at hhi hlo
  dsimp only at hhi hlo
  rw [mapTotalsStep]
  by_cases htype : r.type = xnuEfiConventional
  · simp only [if_pos htype, UInt64.toNat_add]
    omega
  · simp only [if_neg htype, UInt64.toNat_add]
    omega

theorem mapTotalsStep_maxEnd (h : TotalsInv i a st) (hhi : r.toSegment.hi < 4294967296)
    (hlt : a < r.toSegment.hi) : (mapTotalsStep i st r).maxEnd.toNat = r.toSegment.hi := by
  have hmax := h.maxEnd
  have hstop := toNat_stop hhi
  have hcond : st.maxEnd.toUInt64 < r.stop := by
    rw [UInt64.lt_iff_toNat_lt, UInt32.toNat_toUInt64, hstop]
    omega
  rw [mapTotalsStep]
  simp only [if_pos hcond]
  rw [UInt64.toNat_toUInt32, hstop]
  omega

theorem TotalsInv.step (h : TotalsInv i a st) (hhi : r.toSegment.hi < 4294967296)
    (hlo : r.toSegment.lo = a) (hlt : a < r.toSegment.hi) :
    TotalsInv (i + 1) r.toSegment.hi (mapTotalsStep i st r) := by
  refine ⟨?_, Or.inr (toNat_stop hhi), (mapTotalsStep_maxEnd h hhi hlt).le, ?_⟩
  · have hno : ¬(i ≠ 0 ∧ r.physicalStart < st.previousEnd) := by
      rintro ⟨hi, hlt⟩
      have hprev := h.previousEnd.resolve_left hi
      rw [UInt64.lt_iff_toNat_lt, hprev] at hlt
      exact absurd hlo hlt.ne
    rw [mapTotalsStep]
    simp only [if_neg hno, h.overlaps]
  · rw [mapTotalsStep_pages h hhi hlo]
    have hpages := h.pages
    rw [XnuMemoryRange.toSegment] at hlo ⊢
    dsimp only at hlo ⊢
    omega

theorem mapTotalsStep_firstFree (hhi : r.toSegment.hi < 4294967296) (hlo : r.toSegment.lo = a)
    (ha : 0 < a) (l : List XnuMemoryRange) :
    (if (mapTotalsStep i st r).firstFree = 0
        then ((firstConventional l).elim 0 fun t ↦ t.physicalStart.toUInt32)
        else (mapTotalsStep i st r).firstFree)
      = if st.firstFree = 0
        then ((firstConventional (r :: l)).elim 0 fun t ↦ t.physicalStart.toUInt32)
        else st.firstFree := by
  have hstart : r.physicalStart.toUInt32 ≠ 0 := by
    rw [XnuMemoryRange.toSegment] at hhi hlo
    dsimp only at hhi hlo
    rw [ne_eq, ← UInt32.toNat_inj, UInt64.toNat_toUInt32, UInt32.toNat_zero]
    omega
  rw [firstConventional, firstConventional, List.find?_cons]
  by_cases htype : r.type = xnuEfiConventional
  · by_cases hfree : st.firstFree = 0
    · simp only [mapTotalsStep, htype, hfree, and_self, if_true, if_neg hstart, decide_true,
        Option.elim_some]
    · simp only [mapTotalsStep, hfree, and_false, if_false]
  · simp only [mapTotalsStep, htype, false_and, if_false, decide_false]

end Step

/-- The loop over a list of ranges, starting at number `i`. -/
def mapTotalsWalk : ℕ → MapTotals → List XnuMemoryRange → MapTotals
  | _, st, [] => st
  | i, st, r :: l => mapTotalsWalk (i + 1) (mapTotalsStep i st r) l

/-- The loop sees the ranges that memory holds. -/
theorem mapTotalsLoop_eq_walk (rangeAt : ℕ → XnuMemoryRange) (l : List XnuMemoryRange) (i : ℕ)
    (st : MapTotals) (hread : ∀ j (h : j < l.length), rangeAt (i + j) = l.get ⟨j, h⟩) :
    mapTotalsLoop rangeAt l.length i st = mapTotalsWalk i st l := by
  induction l generalizing i st with
  | nil => rfl
  | cons r l ih =>
    have hfirst : rangeAt i = r := hread 0 (Nat.succ_pos _)
    rw [List.length_cons, mapTotalsLoop, mapTotalsWalk, hfirst]
    refine ih (i + 1) _ fun j h ↦ ?_
    have hnext := hread (j + 1) (Nat.succ_lt_succ h)
    rwa [← Nat.add_assoc, Nat.add_right_comm] at hnext

section Walk

variable {i a b : ℕ} {st : MapTotals} {l : List XnuMemoryRange}

section Tiled

variable (htiles : Tiles a (l.map XnuMemoryRange.toSegment) b) (hb : b < 4294967296)
include htiles hb

theorem mapTotalsWalk_overlaps (h : TotalsInv i a st) : (mapTotalsWalk i st l).overlaps = 0 := by
  induction l generalizing i a st with
  | nil => exact h.overlaps
  | cons r l ih =>
    obtain ⟨hlo, hlt, hrest⟩ := htiles
    exact ih hrest (h.step (hrest.le.trans_lt hb) hlo hlt)

theorem mapTotalsWalk_pages (h : TotalsInv i a st) :
    4096 * ((mapTotalsWalk i st l).conventionalPages.toNat
        + (mapTotalsWalk i st l).reservedPages.toNat) + a
      = 4096 * (st.conventionalPages.toNat + st.reservedPages.toNat) + b := by
  induction l generalizing i a st with
  | nil =>
    obtain rfl : a = b := htiles
    rfl
  | cons r l ih =>
    obtain ⟨hlo, hlt, hrest⟩ := htiles
    have hhi : r.toSegment.hi < 4294967296 := hrest.le.trans_lt hb
    have hstep := mapTotalsStep_pages h hhi hlo
    have hwalk := ih hrest (h.step hhi hlo hlt)
    have hsize : r.toSegment.hi = r.toSegment.lo + 4096 * r.numberOfPages.toNat := rfl
    rw [mapTotalsWalk]
    omega

theorem mapTotalsWalk_maxEnd (h : TotalsInv i a st) (hne : l ≠ [] ∨ st.maxEnd.toNat = a) :
    (mapTotalsWalk i st l).maxEnd.toNat = b := by
  induction l generalizing i a st with
  | nil =>
    obtain rfl : a = b := htiles
    exact hne.resolve_left fun hnil ↦ hnil rfl
  | cons r l ih =>
    obtain ⟨hlo, hlt, hrest⟩ := htiles
    have hhi : r.toSegment.hi < 4294967296 := hrest.le.trans_lt hb
    exact ih hrest (h.step hhi hlo hlt) (Or.inr (mapTotalsStep_maxEnd h hhi hlt))

theorem mapTotalsWalk_firstFree (ha : 0 < a) :
    (mapTotalsWalk i st l).firstFree
      = if st.firstFree = 0 then ((firstConventional l).elim 0 fun t ↦ t.physicalStart.toUInt32)
        else st.firstFree := by
  induction l generalizing i a st with
  | nil =>
    split
    · assumption
    · rfl
  | cons r l ih =>
    obtain ⟨hlo, hlt, hrest⟩ := htiles
    rw [mapTotalsWalk, ih hrest (ha.trans hlt)]
    exact mapTotalsStep_firstFree (hrest.le.trans_lt hb) hlo ha l

end Tiled

end Walk

/-! ## The map that the booter built -/

/-- `g_info` after `stage0_init` has cleared it and taken over a map of `count` ranges at
`paddr`. -/
def handedOverInfo (paddr : UInt32) (count : ℕ) : MemoryMapInfo where
  args := some ⟨riscv32CaribebootxMagic, riscv32CaribebootxVersion⟩
  memoryMapPaddr := paddr
  memoryMapCount := .ofNat count
  memoryMapDescSize := xnuMemoryRangeSize
  memoryFirstFree := 0
  memoryMaxEnd := 0
  memoryConventionalPages := 0
  memoryReservedPages := 0
  memoryOverlaps := 0

/-- The address of the lowest Conventional range, or `0` when there is none. -/
def IsLowestConventional (map : List XnuMemoryRange) (v : ℕ) : Prop :=
  (∃ r ∈ map, r.type = xnuEfiConventional ∧ v = r.toSegment.lo ∧
      ∀ t ∈ map, t.type = xnuEfiConventional → v ≤ t.toSegment.lo) ∨
    (v = 0 ∧ ∀ r ∈ map, r.type ≠ xnuEfiConventional)

/-- In a sorted map the first Conventional range is the lowest. -/
theorem isLowestConventional_firstConventional {map : List XnuMemoryRange}
    (hsorted : map.Pairwise fun r t ↦ r.toSegment.lo < t.toSegment.lo)
    (hlt : ∀ r ∈ map, r.toSegment.lo < 4294967296) :
    IsLowestConventional map
      ((firstConventional map).elim 0 fun t ↦ t.physicalStart.toUInt32).toNat := by
  rcases hfind : firstConventional map with _ | r
  · right
    rw [firstConventional, List.find?_eq_none] at hfind
    exact ⟨rfl, fun r hr htype ↦ hfind r hr (decide_eq_true htype)⟩
  · left
    rw [firstConventional, List.find?_eq_some_iff_append] at hfind
    obtain ⟨htype, before, after, rfl, hbefore⟩ := hfind
    have hr : r ∈ before ++ r :: after := List.mem_append_right _ List.mem_cons_self
    have hstart : r.physicalStart.toUInt32.toNat = r.toSegment.lo := by
      have := hlt r hr
      exact Nat.mod_eq_of_lt this
    refine ⟨r, hr, of_decide_eq_true htype, hstart, fun t ht htconv ↦ ?_⟩
    rw [Option.elim_some, hstart]
    obtain ⟨-, hafter, -⟩ := List.pairwise_append.mp hsorted
    rcases List.mem_append.mp ht with ht | ht
    · exact absurd (decide_eq_true htconv) (by simpa using hbefore t ht)
    · rcases List.mem_cons.mp ht with rfl | ht
      · exact le_rfl
      · exact ((List.pairwise_cons.mp hafter).1 t ht).le

/-- `rangeAt` holds the array `map` at `paddr`. -/
def HoldsMap (rangeAt : UInt32 → XnuMemoryRange) (paddr : UInt32) (map : List XnuMemoryRange) :
    Prop :=
  ∀ i (h : i < map.length), rangeAt (paddr + UInt32.ofNat i * xnuMemoryRangeSize) = map.get ⟨i, h⟩

section Totals

variable {rangeAt : UInt32 → XnuMemoryRange} {paddr : UInt32} {map : List XnuMemoryRange}

theorem stage0PrintMemoryMap_nil :
    stage0PrintMemoryMap rangeAt (handedOverInfo paddr 0) = handedOverInfo paddr 0 := by
  have hnone : (handedOverInfo paddr 0).available = false := by
    simp [MemoryMapInfo.available, handedOverInfo]
  rw [stage0PrintMemoryMap, if_neg (by rw [hnone]; decide)]

theorem stage0PrintMemoryMap_eq (hpaddr : paddr ≠ 0) (hne : map ≠ []) (hlength : map.length ≤ 16)
    (hread : HoldsMap rangeAt paddr map) :
    stage0PrintMemoryMap rangeAt (handedOverInfo paddr map.length)
      = (handedOverInfo paddr map.length).withTotals (mapTotalsWalk 0 ⟨0, 0, 0, 0, 0, 0⟩ map) := by
  have hpos : 0 < map.length := List.length_pos_of_ne_nil hne
  have hcount : (UInt32.ofNat map.length).toNat = map.length := by
    rw [UInt32.toNat_ofNat', Nat.mod_eq_of_lt (by omega)]
  have havailable : (handedOverInfo paddr map.length).available = true := by
    have hnonzero : UInt32.ofNat map.length ≠ 0 := by
      rw [ne_eq, ← UInt32.toNat_inj, hcount, UInt32.toNat_zero]
      omega
    simp only [MemoryMapInfo.available, handedOverInfo, decide_eq_true_eq]
    exact ⟨trivial, by decide, hpaddr, hnonzero, by decide⟩
  have hvisited : (handedOverInfo paddr map.length).visited.toNat = map.length := by
    have hfits : ¬xnuStage0MemoryMapMax < UInt32.ofNat map.length := by
      rw [UInt32.lt_iff_toNat_lt, hcount]
      exact not_lt.mpr hlength
    rw [MemoryMapInfo.visited, handedOverInfo, if_neg hfits, hcount]
  rw [stage0PrintMemoryMap, if_pos havailable, hvisited]
  congr 1
  exact mapTotalsLoop_eq_walk _ map 0 _ fun j h ↦ by rw [Nat.zero_add]; exact hread j h

end Totals

section Main

variable (memBase memSize : UInt32) (boot : BootRanges)

/-- The kernel's totals for the map of a boot: no overlap, all pages of the window counted, the end
of the window, and the lowest Conventional range. -/
structure SeesPartition (map : List XnuMemoryRange) (lo hi : ℕ) (info : MemoryMapInfo) : Prop where
  overlaps : info.memoryOverlaps = 0
  pages : info.memoryConventionalPages.toNat + info.memoryReservedPages.toNat = (hi - lo) / 4096
  maxEnd : info.memoryMaxEnd.toNat = if lo < hi then hi else 0
  firstFree : 0 < lo → IsLowestConventional map info.memoryFirstFree.toNat

theorem seesPartition_xnuBuildMemoryMap {rangeAt : UInt32 → XnuMemoryRange} {paddr : UInt32}
    (hpaddr : paddr ≠ 0) (hread : HoldsMap rangeAt paddr (xnuBuildMemoryMap memBase memSize boot)) :
    SeesPartition (xnuBuildMemoryMap memBase memSize boot) (ramStart memBase)
      (ramEnd memBase memSize)
      (stage0PrintMemoryMap rangeAt
        (handedOverInfo paddr (xnuBuildMemoryMap memBase memSize boot).length)) := by
  have hend : ramEnd memBase memSize < 4294967296 := UInt32.toNat_lt _
  have hpart := isPartition_xnuBuildMemoryMap memBase memSize boot
  rcases Nat.lt_or_ge (ramStart memBase) (ramEnd memBase memSize) with h | h
  · have htiles := tiles_xnuBuildMemoryMap memBase memSize boot h
    set map := xnuBuildMemoryMap memBase memSize boot with hmap
    have hne : map ≠ [] := by
      intro hnil
      rw [hnil] at htiles
      exact absurd htiles h.ne
    have hinit : TotalsInv 0 (ramStart memBase) ⟨0, 0, 0, 0, 0, 0⟩ :=
      ⟨rfl, Or.inl rfl, Nat.zero_le _, Nat.zero_le _⟩
    have hpages := mapTotalsWalk_pages htiles hend hinit
    have hlo : ∀ r ∈ map, r.toSegment.lo < 4294967296 := fun r hr ↦
      (((hpart.covers r.toSegment.lo).mp ⟨r, hr, le_rfl, hpart.nonempty r hr⟩).2).trans hend
    have hlength : map.length ≤ 11 := length_xnuBuildMemoryMap_le memBase memSize boot
    rw [stage0PrintMemoryMap_eq hpaddr hne (by omega) hread]
    refine ⟨mapTotalsWalk_overlaps htiles hend hinit, ?_, ?_, fun hpos ↦ ?_⟩
    · -- at most 2^20 pages, so cutting the totals to 32 bits changes nothing
      simp only [UInt64.toNat_zero] at hpages
      change (UInt64.toUInt32 _).toNat + (UInt64.toUInt32 _).toNat = _
      rw [UInt64.toNat_toUInt32, UInt64.toNat_toUInt32]
      omega
    · rw [if_pos h]
      exact mapTotalsWalk_maxEnd htiles hend hinit (Or.inl hne)
    · change IsLowestConventional map (mapTotalsWalk 0 ⟨0, 0, 0, 0, 0, 0⟩ map).firstFree.toNat
      rw [mapTotalsWalk_firstFree htiles hend hpos, if_pos rfl]
      exact isLowestConventional_firstConventional hpart.sorted hlo
  · rw [xnuBuildMemoryMap_of_le memBase memSize boot h, List.length_nil, stage0PrintMemoryMap_nil]
    refine ⟨rfl, ?_, ?_, fun _ ↦ Or.inr ⟨rfl, fun r hr ↦ absurd hr List.not_mem_nil⟩⟩
    · rw [Nat.sub_eq_zero_of_le h]
      rfl
    · rw [if_neg (by omega)]
      rfl

/-- **The boot memory map is a partition, and the kernel sees it so.** The map has at most eleven
ranges and larger arrays would give the same one; it partitions the RAM window; and the kernel
derives the window's totals from it. The largest end is `0` when the window holds no whole page. -/
theorem memoryMap_partition (hbase : memBase.toNat + 4095 < 4294967296)
    (hsize : memBase.toNat + memSize.toNat < 4294967296) {rangeAt : UInt32 → XnuMemoryRange}
    {paddr : UInt32} (hpaddr : paddr ≠ 0)
    (hread : HoldsMap rangeAt paddr (xnuBuildMemoryMap memBase memSize boot)) :
    (xnuBuildMemoryMap memBase memSize boot).length ≤ 11 ∧
      (∀ cap, 11 ≤ cap →
        xnuBuildMemoryMapWith cap memBase memSize boot = xnuBuildMemoryMap memBase memSize boot) ∧
      IsPartition (xnuBuildMemoryMap memBase memSize boot) ((memBase.toNat + 4095) / 4096 * 4096)
        ((memBase.toNat + memSize.toNat) / 4096 * 4096) ∧
      SeesPartition (xnuBuildMemoryMap memBase memSize boot)
        ((memBase.toNat + 4095) / 4096 * 4096) ((memBase.toNat + memSize.toNat) / 4096 * 4096)
        (stage0PrintMemoryMap rangeAt
          (handedOverInfo paddr (xnuBuildMemoryMap memBase memSize boot).length)) := by
  rw [← ramStart_eq hbase, ← ramEnd_eq hsize]
  exact ⟨length_xnuBuildMemoryMap_le memBase memSize boot,
    fun cap hcap ↦ xnuBuildMemoryMapWith_eq memBase memSize boot hcap,
    isPartition_xnuBuildMemoryMap memBase memSize boot,
    seesPartition_xnuBuildMemoryMap memBase memSize boot hpaddr hread⟩

end Main

/-- Memory that holds the array `map` at `paddr` and blank ranges elsewhere. -/
def rangesAt (paddr : UInt32) (map : List XnuMemoryRange) (a : UInt32) : XnuMemoryRange :=
  map.getD ((a - paddr).toNat / 40) ⟨0, 0, 0, 0, 0, 0⟩

theorem holdsMap_rangesAt (paddr : UInt32) {map : List XnuMemoryRange} (h : map.length ≤ 11) :
    HoldsMap (rangesAt paddr map) paddr map := by
  intro i hi
  have hdist : (paddr + UInt32.ofNat i * xnuMemoryRangeSize - paddr).toNat = 40 * i := by
    have hcancel : paddr + UInt32.ofNat i * xnuMemoryRangeSize - paddr
        = UInt32.ofNat i * xnuMemoryRangeSize := by
      rw [UInt32.add_comm, UInt32.add_sub_cancel]
    rw [hcancel, UInt32.toNat_mul, UInt32.toNat_ofNat']
    change i % 2 ^ 32 * 40 % 2 ^ 32 = 40 * i
    omega
  rw [rangesAt, hdist, Nat.mul_div_cancel_left _ (by decide), List.getD_eq_getElem?_getD,
    List.getElem?_eq_getElem hi, Option.getD_some, List.get_eq_getElem]

/-- A window of 256 MiB. -/
theorem memoryMap_partition_virt :
    HoldsMap (rangesAt 0x80230000 (xnuBuildMemoryMap 0x80000000 0x10000000 bootWithLargeDtb))
        0x80230000 (xnuBuildMemoryMap 0x80000000 0x10000000 bootWithLargeDtb) ∧
      IsPartition (xnuBuildMemoryMap 0x80000000 0x10000000 bootWithLargeDtb) 0x80000000
        0x90000000 := by
  have hread := holdsMap_rangesAt 0x80230000
    (length_xnuBuildMemoryMap_le 0x80000000 0x10000000 bootWithLargeDtb)
  exact ⟨hread, (memoryMap_partition 0x80000000 0x10000000 bootWithLargeDtb (by decide) (by decide)
    (by decide) hread).2.2.1⟩

/-- With no RAM at `0x80000000` the map is empty and the largest end stays `0`, not the end of
the window. -/
theorem memoryMap_empty_window :
    ((0x80000000 : UInt32).toNat + 4095 < 4294967296 ∧
        (0x80000000 : UInt32).toNat + (0 : UInt32).toNat < 4294967296 ∧
        HoldsMap (rangesAt 0x80230000 []) 0x80230000
          (xnuBuildMemoryMap 0x80000000 0 bootWithLargeDtb)) ∧
      (stage0PrintMemoryMap (rangesAt 0x80230000 [])
          (handedOverInfo 0x80230000
            (xnuBuildMemoryMap 0x80000000 0 bootWithLargeDtb).length)).memoryMaxEnd.toNat
        ≠ ((0x80000000 : UInt32).toNat + (0 : UInt32).toNat) / 4096 * 4096 := by
  exact ⟨⟨by decide, by decide, holdsMap_rangesAt _ (by decide)⟩, by decide⟩

end CaribeOS
