import CaribeOS.Foundation.IntervalSweep
import CaribeOS.Foundation.Word
import Mathlib.Data.List.DropRight

/-!
# The boot memory map

`xnu_build_memory_map` (`booter/hfsplus_boot.c`) cuts the RAM window into ranges for the kernel. Five
reservations (OpenSBI's slot, the booter image, the kernel, the device tree and the initrd) are
rounded to pages, clipped to the window and kept sorted; a cursor then runs over them and emits a
Conventional range for every gap.

The functions are on 32-bit words as in the source, where both `base + size` and `page_up` can wrap.
The first wrap is tested for. The second is not: a reservation that ends in the last page of the
address space is rounded up to `0` and lost, which is what the condition in `reservedKept_iff` says.

The list of ranges refines `IntervalSweep.sweep` on natural numbers
(`xnuBuildMemoryMapWith_eq_sweep`), and the partition facts come from there.
-/

namespace CaribeOS

open IntervalSweep

/-! ## The builder as it stands in the source -/

def riscv32CaribebootxMagic : UInt32 := 0x31425843

def riscv32CaribebootxVersion : UInt32 := 2

def xnuEfiLoaderCode : UInt32 := 1

def xnuEfiLoaderData : UInt32 := 2

def xnuEfiConventional : UInt32 := 7

def xnuMemoryMapMax : ℕ := 16

def xnuOpensbiBase : UInt32 := 0x80000000

def xnuOpensbiReserved : UInt32 := 0x00200000

/-- `riscv32_xnu_memory_range_t`; the source's `attribute` is a keyword here. -/
structure XnuMemoryRange where
  type : UInt32
  pad : UInt32
  physicalStart : UInt64
  virtualStart : UInt64
  numberOfPages : UInt64
  attr : UInt64
deriving DecidableEq, Repr

/-- `XnuReservedRange`; the source's `end` is a keyword here. -/
structure XnuReservedRange where
  start : UInt32
  stop : UInt32
  type : UInt32
deriving DecidableEq, Repr

def pageDown (value : UInt32) : UInt32 := value &&& ~~~4095

def pageUp (value : UInt32) : UInt32 := (value + 4095) &&& ~~~4095

/-- `xnu_memory_map_add`: the array and its count are one list, `cap` is the array's size. -/
def xnuMemoryMapAdd (cap : ℕ) (map : List XnuMemoryRange) (type start stop : UInt32) :
    List XnuMemoryRange :=
  if stop ≤ start ∨ cap ≤ map.length then map
  else map ++ [{
    type := type
    pad := 0
    physicalStart := start.toUInt64
    virtualStart := start.toUInt64
    numberOfPages := ((stop - start) >>> 12).toUInt64
    attr := 0 }]

/-- The loop at the end of `xnu_reserved_insert`: entries that start later move up by one. -/
def insertByStart (item : XnuReservedRange) (ranges : List XnuReservedRange) :
    List XnuReservedRange :=
  ranges.rdropWhile (fun r ↦ item.start < r.start) ++
    item :: ranges.rtakeWhile (fun r ↦ item.start < r.start)

/-- `xnu_reserved_insert`. -/
def xnuReservedInsert (cap : ℕ) (memStart memEnd : UInt32) (ranges : List XnuReservedRange)
    (base size type : UInt32) : List XnuReservedRange :=
  if base = 0 ∨ size = 0 ∨ cap ≤ ranges.length then ranges
  else if base + size < base then ranges
  else if pageUp (base + size) ≤ memStart ∨ memEnd ≤ pageDown base then ranges
  else
    let start := if pageDown base < memStart then memStart else pageDown base
    let stop := if memEnd < pageUp (base + size) then memEnd else pageUp (base + size)
    if stop ≤ start then ranges else insertByStart ⟨start, stop, type⟩ ranges

/-- The arguments of one `xnu_reserved_insert` call. -/
structure Reservation where
  base : UInt32
  size : UInt32
  type : UInt32

/-- What the memory map depends on besides the RAM window: the linker symbols of the booter image
and the arguments of `xnu_build_memory_map`. -/
structure BootRanges where
  caribebootxStart : UInt32
  caribebootxEnd : UInt32
  kernelBase : UInt32
  kernelSize : UInt32
  dtbBase : UInt32
  dtbSize : UInt32
  initrdBase : UInt32
  initrdSize : UInt32

/-- The five reservations, in the order of the calls. -/
def BootRanges.reservations (boot : BootRanges) : List Reservation :=
  [⟨xnuOpensbiBase, xnuOpensbiReserved, xnuEfiLoaderCode⟩,
    ⟨boot.caribebootxStart, boot.caribebootxEnd - boot.caribebootxStart, xnuEfiLoaderCode⟩,
    ⟨boot.kernelBase, boot.kernelSize, xnuEfiLoaderCode⟩,
    ⟨boot.dtbBase, boot.dtbSize, xnuEfiLoaderData⟩,
    ⟨boot.initrdBase, boot.initrdSize, xnuEfiLoaderData⟩]

/-- The `reserved` array after the calls `rs`. -/
def xnuReserved (cap : ℕ) (memStart memEnd : UInt32) (rs : List Reservation) :
    List XnuReservedRange :=
  rs.foldl (fun ranges r ↦ xnuReservedInsert cap memStart memEnd ranges r.base r.size r.type) []

/-- The body of the cursor loop, on the cursor and the map. -/
def xnuCursorStep (cap : ℕ) (st : UInt32 × List XnuMemoryRange) (r : XnuReservedRange) :
    UInt32 × List XnuMemoryRange :=
  if r.stop ≤ st.1 then st
  else
    let map := if st.1 < r.start then xnuMemoryMapAdd cap st.2 xnuEfiConventional st.1 r.start
      else st.2
    (r.stop, xnuMemoryMapAdd cap map r.type (if r.start < st.1 then st.1 else r.start) r.stop)

/-- `xnu_build_memory_map` with arrays of `cap` entries. -/
def xnuBuildMemoryMapWith (cap : ℕ) (memBase memSize : UInt32) (boot : BootRanges) :
    List XnuMemoryRange :=
  let memStart := pageUp memBase
  let memEnd := pageDown (memBase + memSize)
  if memEnd ≤ memStart then []
  else
    let st := (xnuReserved cap memStart memEnd boot.reservations).foldl (xnuCursorStep cap)
      (memStart, [])
    if st.1 < memEnd then xnuMemoryMapAdd cap st.2 xnuEfiConventional st.1 memEnd else st.2

/-- `xnu_build_memory_map`. -/
def xnuBuildMemoryMap (memBase memSize : UInt32) (boot : BootRanges) : List XnuMemoryRange :=
  xnuBuildMemoryMapWith xnuMemoryMapMax memBase memSize boot

/-! ## Rounding to pages -/

theorem toNat_pageDown (v : UInt32) : (pageDown v).toNat = v.toNat / 4096 * 4096 :=
  Word.toNat_and_not (k := 12) v rfl

theorem toNat_pageUp (v : UInt32) :
    (pageUp v).toNat = (v.toNat + 4095) % 4294967296 / 4096 * 4096 := by
  rw [pageUp, Word.toNat_and_not (k := 12) _ rfl, UInt32.toNat_add]
  rfl

theorem toNat_pageUp_of_le {v : UInt32} (h : v.toNat ≤ 0xFFFFF000) :
    (pageUp v).toNat = (v.toNat + 4095) / 4096 * 4096 := by
  rw [toNat_pageUp, Nat.mod_eq_of_lt (by omega)]

theorem toNat_pageUp_of_lt {v : UInt32} (h : 0xFFFFF000 < v.toNat) : (pageUp v).toNat = 0 := by
  have hv := v.toNat_lt
  rw [toNat_pageUp]
  omega

/-! ## The reserved ranges -/

namespace XnuReservedRange

/-- A reserved range as a labelled interval of addresses. -/
def toSegment (r : XnuReservedRange) : Segment ℕ UInt32 := ⟨r.start.toNat, r.stop.toNat, r.type⟩

end XnuReservedRange

namespace Reservation

/-- The reservation is not lost: the base and the size are not zero, and neither the end nor its
rounding up wraps. -/
def Survives (r : Reservation) : Prop :=
  r.base ≠ 0 ∧ r.size ≠ 0 ∧ r.base.toNat + r.size.toNat ≤ 0xFFFFF000
  deriving Decidable

/-- The addresses of the window whose page meets the reservation. -/
def cover (memStart memEnd : UInt32) (r : Reservation) : Set ℕ :=
  {x | (memStart.toNat ≤ x ∧ x < memEnd.toNat) ∧ r.base.toNat / 4096 * 4096 ≤ x ∧
    x < (r.base.toNat + r.size.toNat + 4095) / 4096 * 4096}

end Reservation

theorem insertByStart_perm (item : XnuReservedRange) (ranges : List XnuReservedRange) :
    (insertByStart item ranges).Perm (item :: ranges) := by
  refine List.perm_middle.trans (List.Perm.cons item ?_)
  rw [List.rdropWhile_append_rtakeWhile]

variable {ranges : List XnuReservedRange} {rs : List Reservation} {cap : ℕ} {s : Segment ℕ UInt32}

theorem start_le_of_mem_rdropWhile {item r : XnuReservedRange}
    (hsorted : ranges.Pairwise fun r t ↦ r.start ≤ t.start)
    (hr : r ∈ ranges.rdropWhile fun r ↦ item.start < r.start) : r.start ≤ item.start := by
  induction ranges using List.reverseRecOn with
  | nil => exact absurd hr List.not_mem_nil
  | append_singleton ranges t ih =>
    obtain ⟨hranges, -, ht⟩ := List.pairwise_append.mp hsorted
    rw [List.rdropWhile_concat] at hr
    split at hr
    · exact ih hranges hr
    · next hle =>
      rw [decide_eq_true_eq, UInt32.not_lt] at hle
      rcases List.mem_append.mp hr with hr | hr
      · exact UInt32.le_trans (ht r hr t (List.mem_singleton_self t)) hle
      · rwa [List.mem_singleton.mp hr]

theorem insertByStart_sorted (item : XnuReservedRange)
    (hsorted : ranges.Pairwise fun r t ↦ r.start ≤ t.start) :
    (insertByStart item ranges).Pairwise fun r t ↦ r.start ≤ t.start := by
  have hsplit := @List.rdropWhile_append_rtakeWhile _ (fun r ↦ decide (item.start < r.start)) ranges
  obtain ⟨hdrop, htake, hcross⟩ := List.pairwise_append.mp (hsplit.symm ▸ hsorted)
  have hlater : ∀ t ∈ ranges.rtakeWhile (fun r ↦ item.start < r.start), item.start ≤ t.start := by
    intro t ht
    have hlt := List.mem_rtakeWhile_imp ht
    rw [decide_eq_true_eq] at hlt
    exact UInt32.le_of_lt hlt
  refine List.pairwise_append.mpr ⟨hdrop, List.pairwise_cons.mpr ⟨hlater, htake⟩, ?_⟩
  intro r hr t ht
  rcases List.mem_cons.mp ht with rfl | ht
  · exact start_le_of_mem_rdropWhile hsorted hr
  · exact hcross r hr t ht

section Reserved

variable {cap : ℕ} {memStart memEnd : UInt32} {ranges : List XnuReservedRange}

/-- A reserved range keeps to pages and to the window, and is not empty. -/
structure XnuReservedRange.WellFormed (memStart memEnd : UInt32) (r : XnuReservedRange) : Prop where
  start_dvd : 4096 ∣ r.start.toNat
  stop_dvd : 4096 ∣ r.stop.toNat
  memStart_le : memStart.toNat ≤ r.start.toNat
  start_lt : r.start.toNat < r.stop.toNat
  le_memEnd : r.stop.toNat ≤ memEnd.toNat

/-- What a call of `xnu_reserved_insert` with room left can do: drop a reservation that covers
nothing, or insert a well-formed item that covers what the reservation covers. -/
theorem xnuReservedInsert_cases (hroom : ranges.length < cap) (hstart : 4096 ∣ memStart.toNat)
    (hend : 4096 ∣ memEnd.toNat) (q : Reservation) :
    (xnuReservedInsert cap memStart memEnd ranges q.base q.size q.type = ranges ∧
        ∀ x, ¬(q.Survives ∧ x ∈ q.cover memStart memEnd)) ∨
      ∃ item : XnuReservedRange,
        xnuReservedInsert cap memStart memEnd ranges q.base q.size q.type
            = insertByStart item ranges ∧
          item.type = q.type ∧ item.WellFormed memStart memEnd ∧
          ∀ x, x ∈ item.toSegment.points ↔ q.Survives ∧ x ∈ q.cover memStart memEnd := by
  obtain ⟨base, size, type⟩ := q
  have hsize := size.toNat_lt
  have hsum : (base + size).toNat = (base.toNat + size.toNat) % 4294967296 := UInt32.toNat_add _ _
  have hdown := toNat_pageDown base
  simp only [Reservation.Survives, Reservation.cover, Set.mem_ofPred_eq]
  rw [xnuReservedInsert]
  by_cases hzero : base = 0 ∨ size = 0 ∨ cap ≤ ranges.length
  · left
    rw [if_pos hzero]
    refine ⟨rfl, fun x h ↦ ?_⟩
    rcases hzero with h0 | h0 | h0
    · exact h.1.1 h0
    · exact h.1.2.1 h0
    · omega
  rw [if_neg hzero]
  simp only [not_or, ← UInt32.toNat_inj, UInt32.toNat_zero] at hzero
  by_cases hwrap : base + size < base
  · left
    rw [if_pos hwrap]
    rw [UInt32.lt_iff_toNat_lt] at hwrap
    exact ⟨rfl, fun x h ↦ by omega⟩
  rw [if_neg hwrap]
  rw [UInt32.lt_iff_toNat_lt] at hwrap
  have hsum' : (base + size).toNat = base.toNat + size.toNat := by omega
  by_cases htop : base.toNat + size.toNat ≤ 0xFFFFF000
  · have hup : (pageUp (base + size)).toNat = (base.toNat + size.toNat + 4095) / 4096 * 4096 := by
      rw [toNat_pageUp_of_le (by omega), hsum']
    by_cases hout : pageUp (base + size) ≤ memStart ∨ memEnd ≤ pageDown base
    · left
      rw [if_pos hout]
      simp only [UInt32.le_iff_toNat_le] at hout
      exact ⟨rfl, fun x h ↦ by omega⟩
    rw [if_neg hout]
    set start := if pageDown base < memStart then memStart else pageDown base with hs
    set stop := if memEnd < pageUp (base + size) then memEnd else pageUp (base + size) with he
    have hs' : start.toNat = max memStart.toNat (pageDown base).toNat := by
      rw [hs]
      split <;> rename_i h <;> rw [UInt32.lt_iff_toNat_lt] at h <;> omega
    have he' : stop.toNat = min memEnd.toNat (pageUp (base + size)).toNat := by
      rw [he]
      split <;> rename_i h <;> rw [UInt32.lt_iff_toNat_lt] at h <;> omega
    by_cases hempty : stop ≤ start
    · left
      simp only [if_pos hempty]
      rw [UInt32.le_iff_toNat_le] at hempty
      exact ⟨trivial, fun x h ↦ by omega⟩
    · right
      simp only [if_neg hempty]
      have hdvd : 4096 ∣ start.toNat ∧ 4096 ∣ stop.toNat := by omega
      refine ⟨⟨start, stop, type⟩, rfl, rfl,
        ⟨hdvd.1, hdvd.2, le_of_le_of_eq (le_max_left _ _) hs'.symm, not_le.mp hempty,
          le_of_eq_of_le he' (min_le_left _ _)⟩, fun x ↦ ?_⟩
      · simp only [XnuReservedRange.toSegment, Segment.mem_points_iff, ne_eq, ← UInt32.toNat_inj,
          UInt32.toNat_zero]
        omega
  · -- the end is in the last page: `page_up` gives zero and the window is never reached
    left
    have hup : (pageUp (base + size)).toNat = 0 := toNat_pageUp_of_lt (by omega)
    rw [if_pos (Or.inl (by rw [UInt32.le_iff_toNat_le, hup]; omega))]
    exact ⟨rfl, fun x h ↦ htop h.1.2.2⟩

/-- What the `reserved` array holds after the calls `rs`. -/
structure ReservedInv (memStart memEnd : UInt32) (rs : List Reservation)
    (ranges : List XnuReservedRange) : Prop where
  sorted : ranges.Pairwise fun r t ↦ r.start ≤ t.start
  wellFormed : ∀ r ∈ ranges, r.WellFormed memStart memEnd
  type_mem : ∀ r ∈ ranges, ∃ q ∈ rs, r.type = q.type
  cover : ∀ x, (∃ r ∈ ranges, x ∈ r.toSegment.points) ↔
    ∃ q ∈ rs, q.Survives ∧ x ∈ q.cover memStart memEnd
  length_le : ranges.length ≤ rs.length

theorem ReservedInv.insert (h : ReservedInv memStart memEnd rs ranges) (hroom : ranges.length < cap)
    (hstart : 4096 ∣ memStart.toNat) (hend : 4096 ∣ memEnd.toNat) (q : Reservation) :
    ReservedInv memStart memEnd (rs ++ [q])
      (xnuReservedInsert cap memStart memEnd ranges q.base q.size q.type) := by
  have hlength := h.length_le
  have htypes : ∀ r ∈ ranges, ∃ p ∈ rs ++ [q], r.type = p.type := fun r hr ↦ by
    obtain ⟨p, hp, hpr⟩ := h.type_mem r hr
    exact ⟨p, List.mem_append_left _ hp, hpr⟩
  have hcover : ∀ x, (∃ p ∈ rs ++ [q], p.Survives ∧ x ∈ p.cover memStart memEnd) ↔
      (∃ p ∈ rs, p.Survives ∧ x ∈ p.cover memStart memEnd) ∨
        q.Survives ∧ x ∈ q.cover memStart memEnd := fun x ↦ by
    simp only [List.mem_append, List.mem_singleton, or_and_right, exists_or, exists_eq_left]
  rcases xnuReservedInsert_cases hroom hstart hend q with
    ⟨heq, hnone⟩ | ⟨item, heq, htype, hitem, hitemCover⟩
  · rw [heq]
    refine ⟨h.sorted, h.wellFormed, htypes, fun x ↦ ?_, ?_⟩
    · rw [hcover, h.cover, or_iff_left (hnone x)]
    · rw [List.length_append, List.length_singleton]
      omega
  · rw [heq]
    have hmem : ∀ r, r ∈ insertByStart item ranges ↔ r = item ∨ r ∈ ranges := fun r ↦ by
      rw [(insertByStart_perm item ranges).mem_iff, List.mem_cons]
    refine ⟨insertByStart_sorted item h.sorted, fun r hr ↦ ?_, fun r hr ↦ ?_, fun x ↦ ?_, ?_⟩
    · rcases (hmem r).mp hr with rfl | hr
      · exact hitem
      · exact h.wellFormed r hr
    · rcases (hmem r).mp hr with rfl | hr
      · exact ⟨q, List.mem_append_right _ (List.mem_singleton_self q), htype⟩
      · exact htypes r hr
    · rw [hcover, ← h.cover, ← hitemCover, or_comm]
      simp only [hmem, or_and_right, exists_or, exists_eq_left]
    · rw [(insertByStart_perm item ranges).length_eq, List.length_cons, List.length_append,
        List.length_singleton]
      omega

/-- Enough room for all calls, and the array holds what the reservations cover. -/
theorem xnuReserved_inv (hroom : rs.length ≤ cap) (hstart : 4096 ∣ memStart.toNat)
    (hend : 4096 ∣ memEnd.toNat) :
    ReservedInv memStart memEnd rs (xnuReserved cap memStart memEnd rs) := by
  induction rs using List.reverseRecOn with
  | nil => exact ⟨List.Pairwise.nil, by simp [xnuReserved], by simp [xnuReserved],
      by simp [xnuReserved], le_rfl⟩
  | append_singleton rs q ih =>
    rw [List.length_append, List.length_singleton] at hroom
    have hprev := ih (by omega)
    have hlength := hprev.length_le
    rw [xnuReserved, List.foldl_append]
    exact hprev.insert (by omega) hstart hend q

/-- With room for all calls the size of the array does not matter. -/
theorem xnuReserved_eq_of_le {cap' : ℕ} (hroom : rs.length ≤ cap) (hroom' : rs.length ≤ cap')
    (hstart : 4096 ∣ memStart.toNat) (hend : 4096 ∣ memEnd.toNat) :
    xnuReserved cap memStart memEnd rs = xnuReserved cap' memStart memEnd rs := by
  induction rs using List.reverseRecOn with
  | nil => rfl
  | append_singleton rs q ih =>
    rw [List.length_append, List.length_singleton] at hroom hroom'
    have hlength := (xnuReserved_inv (by omega : rs.length ≤ cap) hstart hend).length_le
    rw [xnuReserved, xnuReserved, List.foldl_append, List.foldl_append]
    change xnuReservedInsert cap memStart memEnd (xnuReserved cap memStart memEnd rs) _ _ _
      = xnuReservedInsert cap' memStart memEnd (xnuReserved cap' memStart memEnd rs) _ _ _
    rw [← ih (by omega) (by omega), xnuReservedInsert, xnuReservedInsert]
    have hcap : (cap ≤ (xnuReserved cap memStart memEnd rs).length) = False := by
      rw [eq_iff_iff, iff_false]
      omega
    have hcap' : (cap' ≤ (xnuReserved cap memStart memEnd rs).length) = False := by
      rw [eq_iff_iff, iff_false]
      omega
    simp only [hcap, hcap']

theorem ReservedInv.sweepable (h : ReservedInv memStart memEnd rs ranges)
    (htype : ∀ q ∈ rs, q.type ≠ xnuEfiConventional) :
    Sweepable xnuEfiConventional memStart.toNat memEnd.toNat
      (ranges.map XnuReservedRange.toSegment) := by
  refine ⟨?_, ?_, ?_, ?_⟩
  · rw [List.pairwise_map]
    exact h.sorted.imp fun hle ↦ UInt32.le_iff_toNat_le.mp hle
  · rw [List.forall_mem_map]
    exact fun r hr ↦ (h.wellFormed r hr).start_lt
  · rw [List.forall_mem_map]
    exact fun r hr ↦ ⟨(h.wellFormed r hr).memStart_le, (h.wellFormed r hr).le_memEnd⟩
  · rw [List.forall_mem_map]
    intro r hr
    obtain ⟨q, hq, hqr⟩ := h.type_mem r hr
    exact fun hconv ↦ htype q hq (hqr ▸ hconv)

end Reserved

/-! ## The ranges as a sweep -/

/-- The range that `xnu_memory_map_add` writes for an interval. -/
def ofSegment (s : Segment ℕ UInt32) : XnuMemoryRange where
  type := s.label
  pad := 0
  physicalStart := .ofNat s.lo
  virtualStart := .ofNat s.lo
  numberOfPages := .ofNat ((s.hi - s.lo) / 4096)
  attr := 0

theorem xnuMemoryMapAdd_eq {map : List XnuMemoryRange} {start stop : UInt32} (type : UInt32)
    (hroom : map.length < cap) (h : start < stop) :
    xnuMemoryMapAdd cap map type start stop
      = map ++ [ofSegment ⟨start.toNat, stop.toNat, type⟩] := by
  have hlt := UInt32.lt_iff_toNat_lt.mp h
  have hpages : ((stop - start) >>> 12).toNat = (stop.toNat - start.toNat) / 4096 := by
    rw [UInt32.toNat_shiftRight, UInt32.toNat_sub_of_le _ _ (UInt32.le_of_lt h),
      Nat.shiftRight_eq_div_pow]
    rfl
  rw [xnuMemoryMapAdd, if_neg (by rw [UInt32.le_iff_toNat_le]; omega), ofSegment, ← hpages]
  simp only [UInt64.ofNat_uInt32ToNat]

section Cursor

variable {cap : ℕ} {st : UInt32 × List XnuMemoryRange} {sw : ℕ × List (Segment ℕ UInt32)}

/-- The builder's state and the state of the sweep agree. -/
def Simulates (st : UInt32 × List XnuMemoryRange) (sw : ℕ × List (Segment ℕ UInt32)) : Prop :=
  st.1.toNat = sw.1 ∧ st.2 = sw.2.map ofSegment

theorem Simulates.step (h : Simulates st sw) (hroom : sw.2.length + 2 ≤ cap) {r : XnuReservedRange}
    (hr : r.start < r.stop) :
    Simulates (xnuCursorStep cap st r) (sweepStep xnuEfiConventional sw r.toSegment) := by
  obtain ⟨cursor, map⟩ := st
  obtain ⟨hcursor, rfl⟩ := h
  have hlength : (sw.2.map ofSegment).length = sw.2.length := List.length_map _
  have hskip : r.stop ≤ cursor ↔ r.toSegment.hi ≤ sw.1 := by
    rw [UInt32.le_iff_toNat_le, hcursor]
    rfl
  have hgap : cursor < r.start ↔ sw.1 < r.toSegment.lo := by
    rw [UInt32.lt_iff_toNat_lt, hcursor]
    rfl
  have hover : r.start < cursor ↔ r.toSegment.lo < sw.1 := by
    rw [UInt32.lt_iff_toNat_lt, hcursor]
    rfl
  have hown : (if r.start < cursor then cursor else r.start).toNat
      = if r.toSegment.lo < sw.1 then sw.1 else r.toSegment.lo := by
    rw [apply_ite UInt32.toNat, hcursor]
    exact if_congr hover rfl rfl
  rw [xnuCursorStep, sweepStep]
  by_cases h1 : r.stop ≤ cursor
  · rw [if_pos h1, if_pos (hskip.mp h1)]
    exact ⟨hcursor, rfl⟩
  rw [if_neg h1, if_neg (mt hskip.mpr h1)]
  have hlt : (if r.start < cursor then cursor else r.start) < r.stop := by
    split
    · exact UInt32.not_le.mp h1
    · exact hr
  refine ⟨rfl, ?_⟩
  by_cases h2 : cursor < r.start
  · simp only [if_pos h2, if_pos (hgap.mp h2)]
    rw [xnuMemoryMapAdd_eq _ (by omega) h2, xnuMemoryMapAdd_eq _ _ hlt, hown, hcursor]
    · simp only [List.map_append, List.map_cons, List.map_nil]
      rfl
    · rw [List.length_append, List.length_singleton]
      omega
  · simp only [if_neg h2, if_neg (mt hgap.mpr h2)]
    rw [xnuMemoryMapAdd_eq _ (by omega) hlt, hown, List.append_nil, List.map_append]
    rfl

/-- The cursor loop simulates the sweep, given room for two ranges a reservation. -/
theorem simulates_cursor (memStart : UInt32) (hroom : 2 * ranges.length ≤ cap)
    (hne : ∀ r ∈ ranges, r.start < r.stop) :
    Simulates (ranges.foldl (xnuCursorStep cap) (memStart, []))
      (sweepRun xnuEfiConventional memStart.toNat (ranges.map XnuReservedRange.toSegment)) := by
  induction ranges using List.reverseRecOn with
  | nil => exact ⟨rfl, rfl⟩
  | append_singleton ranges r ih =>
    rw [List.length_append, List.length_singleton] at hroom
    have hprev := ih (by omega) fun t ht ↦ hne t (List.mem_append_left _ ht)
    have hlength : (sweepRun xnuEfiConventional memStart.toNat
        (ranges.map XnuReservedRange.toSegment)).2.length ≤ 2 * ranges.length :=
      length_sweepRun_le.trans_eq (by rw [List.length_map])
    rw [List.foldl_append, List.map_append, List.map_singleton, sweepRun_concat]
    exact hprev.step (by omega) (hne r (List.mem_append_right _ (List.mem_singleton_self r)))

end Cursor

section Build

variable (memBase memSize : UInt32) (boot : BootRanges)

/-- The first address of the RAM window. -/
def ramStart : ℕ := (pageUp memBase).toNat

/-- The end of the RAM window. -/
def ramEnd : ℕ := (pageDown (memBase + memSize)).toNat

/-- The reserved ranges of a boot. -/
def bootReserved : List XnuReservedRange :=
  xnuReserved xnuMemoryMapMax (pageUp memBase) (pageDown (memBase + memSize)) boot.reservations

theorem pageUp_dvd (v : UInt32) : 4096 ∣ (pageUp v).toNat := by
  rw [toNat_pageUp]
  exact Nat.dvd_mul_left _ _

theorem pageDown_dvd (v : UInt32) : 4096 ∣ (pageDown v).toNat := by
  rw [toNat_pageDown]
  exact Nat.dvd_mul_left _ _

theorem length_reservations : boot.reservations.length = 5 := rfl

theorem bootReserved_inv :
    ReservedInv (pageUp memBase) (pageDown (memBase + memSize)) boot.reservations
      (bootReserved memBase memSize boot) :=
  xnuReserved_inv (by rw [length_reservations]; decide) (pageUp_dvd _) (pageDown_dvd _)

theorem bootReserved_sweepable :
    Sweepable xnuEfiConventional (ramStart memBase) (ramEnd memBase memSize)
      ((bootReserved memBase memSize boot).map XnuReservedRange.toSegment) := by
  refine (bootReserved_inv memBase memSize boot).sweepable ?_
  simp only [BootRanges.reservations, List.mem_cons, List.not_mem_nil, or_false]
  rintro q (rfl | rfl | rfl | rfl | rfl) <;> dsimp only <;> decide

/-- The window cut into segments: the abstract content of the memory map. -/
def bootSegments : List (Segment ℕ UInt32) :=
  if ramEnd memBase memSize ≤ ramStart memBase then []
  else sweep xnuEfiConventional (ramStart memBase) (ramEnd memBase memSize)
    ((bootReserved memBase memSize boot).map XnuReservedRange.toSegment)

theorem length_bootSegments_le : (bootSegments memBase memSize boot).length ≤ 11 := by
  rw [bootSegments]
  split
  · exact Nat.zero_le _
  · refine length_sweep_le.trans ?_
    have := (bootReserved_inv memBase memSize boot).length_le
    rw [length_reservations] at this
    rw [List.length_map]
    omega

/-- **Refinement.** With arrays of at least eleven entries the builder computes the sweep. -/
theorem xnuBuildMemoryMapWith_eq_sweep (hcap : 11 ≤ cap) :
    xnuBuildMemoryMapWith cap memBase memSize boot
      = (bootSegments memBase memSize boot).map ofSegment := by
  have hwindow : pageDown (memBase + memSize) ≤ pageUp memBase ↔
      ramEnd memBase memSize ≤ ramStart memBase := UInt32.le_iff_toNat_le
  have hreserved : xnuReserved cap (pageUp memBase) (pageDown (memBase + memSize)) boot.reservations
      = bootReserved memBase memSize boot :=
    xnuReserved_eq_of_le (by rw [length_reservations]; omega)
      (by rw [length_reservations]; decide) (pageUp_dvd _) (pageDown_dvd _)
  have hinv := bootReserved_inv memBase memSize boot
  have hlength := hinv.length_le
  rw [length_reservations] at hlength
  set segs := (bootReserved memBase memSize boot).map XnuReservedRange.toSegment with hsegs
  have hsim : Simulates
      ((bootReserved memBase memSize boot).foldl (xnuCursorStep cap) (pageUp memBase, []))
      (sweepRun xnuEfiConventional (ramStart memBase) segs) :=
    simulates_cursor (pageUp memBase) (by omega)
      fun r hr ↦ UInt32.lt_iff_toNat_lt.mpr (hinv.wellFormed r hr).start_lt
  have hrun : (sweepRun xnuEfiConventional (ramStart memBase) segs).2.length ≤ 10 := by
    refine length_sweepRun_le.trans ?_
    rw [hsegs, List.length_map]
    omega
  obtain ⟨hcursor, hmap⟩ := hsim
  rw [xnuBuildMemoryMapWith, bootSegments]
  by_cases hempty : ramEnd memBase memSize ≤ ramStart memBase
  · rw [if_pos (hwindow.mpr hempty), if_pos hempty, List.map_nil]
  rw [if_neg (mt hwindow.mp hempty), if_neg hempty, hreserved, sweep, ← hsegs]
  generalize hst : (bootReserved memBase memSize boot).foldl (xnuCursorStep cap)
    (pageUp memBase, []) = st at hcursor hmap
  have hrest : st.1 < pageDown (memBase + memSize) ↔
      (sweepRun xnuEfiConventional (ramStart memBase) segs).1 < ramEnd memBase memSize := by
    rw [UInt32.lt_iff_toNat_lt, hcursor]
    rfl
  by_cases hlt : st.1 < pageDown (memBase + memSize)
  · have hroom : st.2.length < cap := by
      rw [hmap, List.length_map]
      omega
    rw [if_pos hlt, if_pos (hrest.mp hlt), xnuMemoryMapAdd_eq _ hroom hlt, hmap, hcursor,
      List.map_append]
    rfl
  · rw [if_neg hlt, if_neg (mt hrest.mpr hlt), List.append_nil, hmap]

theorem xnuBuildMemoryMap_eq_sweep :
    xnuBuildMemoryMap memBase memSize boot = (bootSegments memBase memSize boot).map ofSegment :=
  xnuBuildMemoryMapWith_eq_sweep memBase memSize boot (by decide)

end Build

/-! ## The map is a partition -/

/-- A range of the map as a labelled interval of addresses. -/
def XnuMemoryRange.toSegment (r : XnuMemoryRange) : Segment ℕ UInt32 :=
  ⟨r.physicalStart.toNat, r.physicalStart.toNat + 4096 * r.numberOfPages.toNat, r.type⟩

/-- Ranges that are non-empty, page-aligned, sorted, pairwise disjoint and contiguous, and that
together cover exactly `[lo, hi)`. -/
structure IsPartition (map : List XnuMemoryRange) (lo hi : ℕ) : Prop where
  nonempty : ∀ r ∈ map, r.toSegment.lo < r.toSegment.hi
  aligned : ∀ r ∈ map, 4096 ∣ r.toSegment.lo ∧ 4096 ∣ r.toSegment.hi
  sorted : map.Pairwise fun r t ↦ r.toSegment.lo < t.toSegment.lo
  disjoint : map.Pairwise fun r t ↦ ∀ x ∈ r.toSegment.points, x ∉ t.toSegment.points
  contiguous : map.IsChain fun r t ↦ r.toSegment.hi = t.toSegment.lo
  covers : ∀ x, (∃ r ∈ map, x ∈ r.toSegment.points) ↔ lo ≤ x ∧ x < hi

/-- Writing an interval as a range loses nothing when its ends are addresses of pages. -/
theorem toSegment_ofSegment (hlo : 4096 ∣ s.lo) (hhi : 4096 ∣ s.hi) (hle : s.lo ≤ s.hi)
    (hlt : s.hi < 4294967296) : (ofSegment s).toSegment = s := by
  have hstart : (UInt64.ofNat s.lo).toNat = s.lo := by
    rw [UInt64.toNat_ofNat', Nat.mod_eq_of_lt (by omega)]
  have hpages : (UInt64.ofNat ((s.hi - s.lo) / 4096)).toNat = (s.hi - s.lo) / 4096 := by
    rw [UInt64.toNat_ofNat', Nat.mod_eq_of_lt (by omega)]
  ext
  · exact hstart
  · rw [XnuMemoryRange.toSegment, ofSegment, hstart, hpages]
    dsimp only
    omega
  · rfl

section Partition

variable (memBase memSize : UInt32) (boot : BootRanges)

theorem tiles_bootSegments (h : ramStart memBase < ramEnd memBase memSize) :
    Tiles (ramStart memBase) (bootSegments memBase memSize boot) (ramEnd memBase memSize) := by
  rw [bootSegments, if_neg (by omega)]
  exact tiles_sweep h.le (bootReserved_sweepable memBase memSize boot)

theorem bootSegments_aligned (hs : s ∈ bootSegments memBase memSize boot) :
    4096 ∣ s.lo ∧ 4096 ∣ s.hi := by
  rw [bootSegments] at hs
  split at hs
  · exact absurd hs List.not_mem_nil
  · refine sweep_ends (pageUp_dvd memBase) (pageDown_dvd _) ?_ hs
    rw [List.forall_mem_map]
    intro r hr
    have hwf := (bootReserved_inv memBase memSize boot).wellFormed r hr
    exact ⟨hwf.start_dvd, hwf.stop_dvd⟩

theorem bootSegments_bounds (hs : s ∈ bootSegments memBase memSize boot) :
    s.lo < s.hi ∧ s.hi < 4294967296 := by
  have hend : ramEnd memBase memSize < 4294967296 := UInt32.toNat_lt _
  rcases Nat.lt_or_ge (ramStart memBase) (ramEnd memBase memSize) with h | h
  · obtain ⟨-, hne, hle⟩ := (tiles_bootSegments memBase memSize boot h).bounds hs
    exact ⟨hne, hle.trans_lt hend⟩
  · rw [bootSegments, if_pos h] at hs
    exact absurd hs List.not_mem_nil

theorem map_toSegment_xnuBuildMemoryMap :
    (xnuBuildMemoryMap memBase memSize boot).map XnuMemoryRange.toSegment
      = bootSegments memBase memSize boot := by
  rw [xnuBuildMemoryMap_eq_sweep, List.map_map]
  refine (List.map_congr_left fun s hs ↦ ?_).trans (List.map_id _)
  obtain ⟨hlo, hhi⟩ := bootSegments_aligned memBase memSize boot hs
  obtain ⟨hne, hlt⟩ := bootSegments_bounds memBase memSize boot hs
  exact toSegment_ofSegment hlo hhi hne.le hlt

theorem forall_mem_xnuBuildMemoryMap {P : Segment ℕ UInt32 → Prop}
    (h : ∀ s ∈ bootSegments memBase memSize boot, P s) :
    ∀ r ∈ xnuBuildMemoryMap memBase memSize boot, P r.toSegment := by
  rwa [← map_toSegment_xnuBuildMemoryMap, List.forall_mem_map] at h

theorem tiles_xnuBuildMemoryMap (h : ramStart memBase < ramEnd memBase memSize) :
    Tiles (ramStart memBase)
      ((xnuBuildMemoryMap memBase memSize boot).map XnuMemoryRange.toSegment)
      (ramEnd memBase memSize) := by
  rw [map_toSegment_xnuBuildMemoryMap]
  exact tiles_bootSegments memBase memSize boot h

theorem xnuBuildMemoryMap_of_le (h : ramEnd memBase memSize ≤ ramStart memBase) :
    xnuBuildMemoryMap memBase memSize boot = [] := by
  rw [xnuBuildMemoryMap_eq_sweep, bootSegments, if_pos h, List.map_nil]

theorem isPartition_xnuBuildMemoryMap :
    IsPartition (xnuBuildMemoryMap memBase memSize boot) (ramStart memBase)
      (ramEnd memBase memSize) := by
  have hne := forall_mem_xnuBuildMemoryMap memBase memSize boot
    (fun s hs ↦ (bootSegments_bounds memBase memSize boot hs).1)
  have haligned := forall_mem_xnuBuildMemoryMap memBase memSize boot
    (fun s hs ↦ bootSegments_aligned memBase memSize boot hs)
  rcases Nat.lt_or_ge (ramStart memBase) (ramEnd memBase memSize) with h | h
  · have htiles := tiles_xnuBuildMemoryMap memBase memSize boot h
    have hapart := List.pairwise_map.mp htiles.pairwise
    refine ⟨hne, haligned, ?_, ?_, ?_, fun x ↦ ?_⟩
    · exact hapart.imp_of_mem fun hr _ hle ↦ (hne _ hr).trans_le hle
    · refine hapart.imp fun hle ↦ ?_
      rintro x ⟨-, hx⟩ ⟨hx', -⟩
      omega
    · exact List.isChain_map _ |>.mp htiles.isChain
    · rw [← htiles.exists_mem_iff x]
      simp only [List.mem_map, exists_exists_and_eq_and]
  · rw [xnuBuildMemoryMap_of_le memBase memSize boot h] at hne haligned ⊢
    refine ⟨hne, haligned, List.Pairwise.nil, List.Pairwise.nil, List.isChain_nil, fun x ↦ ?_⟩
    simp only [List.not_mem_nil, false_and, exists_false, false_iff]
    omega

theorem length_xnuBuildMemoryMap_le : (xnuBuildMemoryMap memBase memSize boot).length ≤ 11 := by
  rw [xnuBuildMemoryMap_eq_sweep, List.length_map]
  exact length_bootSegments_le memBase memSize boot

/-- Larger arrays give the same map: no range is dropped for lack of room. -/
theorem xnuBuildMemoryMapWith_eq (hcap : 11 ≤ cap) :
    xnuBuildMemoryMapWith cap memBase memSize boot = xnuBuildMemoryMap memBase memSize boot := by
  rw [xnuBuildMemoryMap_eq_sweep, xnuBuildMemoryMapWith_eq_sweep memBase memSize boot hcap]

end Partition

/-! ## Reserved pages -/

/-- The page at `page` meets the reservation `[base, base + size)`. -/
def Reservation.Meets (r : Reservation) (page : ℕ) : Prop :=
  page < r.base.toNat + r.size.toNat ∧ r.base.toNat < page + 4096
  deriving Decidable

/-- The first address of a whole page of RAM. -/
structure IsRamPage (memBase memSize : UInt32) (page : ℕ) : Prop where
  aligned : 4096 ∣ page
  start_le : memBase.toNat ≤ page
  le_end : page + 4096 ≤ memBase.toNat + memSize.toNat

/-- The page lies in a range of the map that is not Conventional. -/
def PageReserved (map : List XnuMemoryRange) (page : ℕ) : Prop :=
  ∃ r ∈ map, r.type ≠ xnuEfiConventional ∧ r.toSegment.lo ≤ page ∧ page + 4096 ≤ r.toSegment.hi

/-- No page of RAM that meets a reservation is Conventional. The reservations are those with a
base, a size and an end that does not wrap. -/
def ReservedKept (memBase memSize : UInt32) (boot : BootRanges) : Prop :=
  ∀ r ∈ boot.reservations, r.base ≠ 0 → r.size ≠ 0 → r.base.toNat + r.size.toNat < 4294967296 →
    ∀ page, IsRamPage memBase memSize page → r.Meets page →
      PageReserved (xnuBuildMemoryMap memBase memSize boot) page

section Kept

variable {memBase memSize : UInt32} (boot : BootRanges)

theorem ramStart_eq (hbase : memBase.toNat + 4095 < 4294967296) :
    ramStart memBase = (memBase.toNat + 4095) / 4096 * 4096 := by
  rw [ramStart, toNat_pageUp, Nat.mod_eq_of_lt hbase]

theorem ramEnd_eq (hsize : memBase.toNat + memSize.toNat < 4294967296) :
    ramEnd memBase memSize = (memBase.toNat + memSize.toNat) / 4096 * 4096 := by
  rw [ramEnd, toNat_pageDown, UInt32.toNat_add, Nat.mod_eq_of_lt hsize]

theorem isRamPage_iff (hbase : memBase.toNat + 4095 < 4294967296)
    (hsize : memBase.toNat + memSize.toNat < 4294967296) (page : ℕ) :
    IsRamPage memBase memSize page ↔
      4096 ∣ page ∧ ramStart memBase ≤ page ∧ page < ramEnd memBase memSize := by
  rw [ramStart_eq hbase, ramEnd_eq hsize]
  constructor
  · rintro ⟨hdvd, hlo, hhi⟩
    exact ⟨hdvd, by omega, by omega⟩
  · rintro ⟨hdvd, hlo, hhi⟩
    exact ⟨hdvd, by omega, by omega⟩

/-- **Reserved pages.** A page of RAM is outside the Conventional ranges exactly when it meets a
reservation that survives the rounding. -/
theorem pageReserved_iff (hbase : memBase.toNat + 4095 < 4294967296)
    (hsize : memBase.toNat + memSize.toNat < 4294967296) {page : ℕ}
    (hpage : IsRamPage memBase memSize page) :
    PageReserved (xnuBuildMemoryMap memBase memSize boot) page ↔
      ∃ r ∈ boot.reservations, r.Survives ∧ r.Meets page := by
  obtain ⟨hdvd, hlo, hhi⟩ := (isRamPage_iff hbase hsize page).mp hpage
  have hwindow : ramStart memBase < ramEnd memBase memSize := hlo.trans_lt hhi
  have htaken := exists_taken_iff hwindow.le (bootReserved_sweepable memBase memSize boot) page
  have hcover := (bootReserved_inv memBase memSize boot).cover page
  have hsegs : bootSegments memBase memSize boot = sweep xnuEfiConventional (ramStart memBase)
      (ramEnd memBase memSize)
      ((bootReserved memBase memSize boot).map XnuReservedRange.toSegment) := by
    rw [bootSegments, if_neg (by omega)]
  have hreserved : PageReserved (xnuBuildMemoryMap memBase memSize boot) page ↔
      ∃ s ∈ bootSegments memBase memSize boot, s.label ≠ xnuEfiConventional ∧ page ∈ s.points := by
    rw [← map_toSegment_xnuBuildMemoryMap]
    simp only [PageReserved, List.mem_map, exists_exists_and_eq_and]
    refine exists_congr fun r ↦ and_congr_right fun hr ↦ and_congr_right fun _ ↦ ?_
    have haligned := (isPartition_xnuBuildMemoryMap memBase memSize boot).aligned r hr
    rw [Segment.mem_points_iff]
    omega
  rw [hreserved, hsegs, htaken]
  simp only [List.mem_map, exists_exists_and_eq_and]
  rw [hcover]
  refine exists_congr fun r ↦ and_congr_right fun _ ↦ and_congr_right fun hsurv ↦ ?_
  have hwin : (pageUp memBase).toNat ≤ page ∧ page < (pageDown (memBase + memSize)).toNat :=
    ⟨hlo, hhi⟩
  simp only [Reservation.cover, Set.mem_ofPred_eq, Reservation.Meets]
  omega

/-- The reservation ends in the last page of the address space, where rounding up wraps. -/
def Reservation.LostByRounding (r : Reservation) : Prop :=
  r.base ≠ 0 ∧ r.size ≠ 0 ∧ 0xFFFFF000 < r.base.toNat + r.size.toNat ∧
    r.base.toNat + r.size.toNat < 4294967296

/-- **No reserved page is offered as free memory**, exactly when the pages of RAM that meet a
reservation lost by rounding are also held by a reservation that survives. -/
theorem reservedKept_iff (hbase : memBase.toNat + 4095 < 4294967296)
    (hsize : memBase.toNat + memSize.toNat < 4294967296) :
    ReservedKept memBase memSize boot ↔
      ∀ r ∈ boot.reservations, r.LostByRounding → ∀ page, IsRamPage memBase memSize page →
        r.Meets page → ∃ q ∈ boot.reservations, q.Survives ∧ q.Meets page := by
  constructor
  · intro h r hr hlost page hpage hmeets
    obtain ⟨hb, hs, -, hwrap⟩ := hlost
    exact (pageReserved_iff boot hbase hsize hpage).mp (h r hr hb hs hwrap page hpage hmeets)
  · intro h r hr hb hs hwrap page hpage hmeets
    rw [pageReserved_iff boot hbase hsize hpage]
    rcases Nat.lt_or_ge 0xFFFFF000 (r.base.toNat + r.size.toNat) with hlost | hsurv
    · exact h r hr ⟨hb, hs, hlost, hwrap⟩ page hpage hmeets
    · exact ⟨r, hr, ⟨hb, hs, hsurv⟩, hmeets⟩

end Kept

/-- A boot with a device tree at `0x8FE00000` whose header claims `0x701FFFFF` bytes, so that it
ends at the last address of the address space. -/
def bootWithLargeDtb : BootRanges where
  caribebootxStart := 0x80200000
  caribebootxEnd := 0x80240000
  kernelBase := 0x80400000
  kernelSize := 0x00200000
  dtbBase := 0x8FE00000
  dtbSize := 0x701FFFFF
  initrdBase := 0x84000000
  initrdSize := 0x00100000

theorem reservedKept_iff_largeDtb :
    ReservedKept 0x80000000 0x10000000 bootWithLargeDtb ↔
      ∀ r ∈ bootWithLargeDtb.reservations, r.LostByRounding →
        ∀ page, IsRamPage 0x80000000 0x10000000 page →
          r.Meets page → ∃ q ∈ bootWithLargeDtb.reservations, q.Survives ∧ q.Meets page :=
  reservedKept_iff bootWithLargeDtb (by decide) (by decide)

/-- The first page of that device tree is RAM and Conventional. -/
theorem largeDtb_offered_as_free : ¬ReservedKept 0x80000000 0x10000000 bootWithLargeDtb := by
  intro h
  have hpage : IsRamPage 0x80000000 0x10000000 0x8FE00000 := ⟨by decide, by decide, by decide⟩
  have hkept := h ⟨0x8FE00000, 0x701FFFFF, xnuEfiLoaderData⟩
    (by simp [BootRanges.reservations, bootWithLargeDtb]) (by decide) (by decide) (by decide)
    0x8FE00000 hpage (by decide)
  rw [pageReserved_iff _ (by decide) (by decide) hpage] at hkept
  exact absurd hkept (by decide)

end CaribeOS
