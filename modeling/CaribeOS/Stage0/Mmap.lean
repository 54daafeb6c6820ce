import CaribeOS.Foundation.Word
import CaribeOS.Stage0.Confinement

/-!
# The pages that `mmap` hands out

`mmap` takes its pages from the front of what is left of a fixed range, and no other system call moves
that front; `munmap` and `mremap` give nothing back. So the regions handed out over a run of user mode
lie one behind the other.

The length is rounded up to pages in 32-bit arithmetic, which wraps to zero for the last page of
lengths. A length of zero is refused, so the wrap does no harm.
-/

namespace CaribeOS

open ByteMemory ByteProgram
open Prog hiding ret

/-! ## Rounding -/

/-- The length in whole pages. -/
def pageRounded (n : ℕ) : ℕ := (n + 4095) / 4096 * 4096

theorem toNat_linuxPageAlign (v : UInt32) :
    (linuxPageAlign v).toNat = pageRounded v.toNat % 4294967296 := by
  have hsum : (v + 4096 - 1).toNat = (v.toNat + 4095) % 4294967296 := by
    have hv : v + 4096 - 1 = v + 4095 := by grind
    rw [hv, UInt32.toNat_add]
    rfl
  rw [linuxPageAlign, @Word.toNat_and_not (4096 - 1) 12 _ (by decide), hsum, pageRounded]
  omega

theorem linuxPageAlign_fits_iff {v room : UInt32} (hroom : room.toNat < 4294963200) :
    linuxPageAlign v ≠ 0 ∧ linuxPageAlign v ≤ room ↔
      v.toNat ≠ 0 ∧ pageRounded v.toNat ≤ room.toNat := by
  have hlt := v.toNat_lt
  rw [← UInt32.toNat_inj.ne, UInt32.le_iff_toNat_le, toNat_linuxPageAlign, pageRounded,
    UInt32.toNat_zero]
  omega

/-! ## Runs -/

/-- The kernel's variables, and the regions that `mmap` has handed out: address and length. -/
structure MmapRun where
  kernel : Stage0
  regions : List (ℕ × ℕ)

/-- The region that a trap hands out. -/
def mmapRegion (info : Stage0Info) (g : Stage0) (t : UserTrap) : Option (ℕ × ℕ) :=
  if IsMmap t.frame then
    match ((xnuStage0UserTrapDispatch info t.time g t.frame).val t.mem).2 with
    | none => none
    | some f =>
      if f.a0 = linuxErrno linuxEnomem then none
      else some (f.a0.toNat, pageRounded t.frame.a1.toNat)
  else none

def mmapRunStep (info : Stage0Info) (s : MmapRun) (t : UserTrap) : Option MmapRun :=
  (trapStep info s.kernel t).map fun g ↦
    ⟨g, (mmapRegion info s.kernel t).toList ++ s.regions⟩

/-- The front is at a page, and the regions handed out lie before it. -/
structure MmapInv (s : MmapRun) : Prop where
  inRange : MmapInRange s.kernel.mmapNext
  aligned : 4096 ∣ s.kernel.mmapNext.toNat
  below : ∀ q ∈ s.regions, q.1 + q.2 ≤ s.kernel.mmapNext.toNat

theorem toNat_room {next : UInt32} (h : MmapInRange next) :
    (xnuStage0MmapLimit - next).toNat = 0x81400000 - next.toNat :=
  UInt32.toNat_sub_of_le _ _ h.2

theorem mmapFits_iff {g : Stage0} {f : UserFrame} (h : MmapInRange g.mmapNext) :
    MmapFits g f ↔ f.a1.toNat ≠ 0 ∧ pageRounded f.a1.toNat ≤ 0x81400000 - g.mmapNext.toNat := by
  have hroom := toNat_room h
  rw [MmapFits, linuxPageAlign_fits_iff (by omega), hroom]

theorem toNat_linuxPageAlign_of_fits {g : Stage0} {f : UserFrame} (h : MmapInRange g.mmapNext)
    (hfits : MmapFits g f) : (linuxPageAlign f.a1).toNat = pageRounded f.a1.toNat := by
  have hle := ((mmapFits_iff h).mp hfits).2
  rw [toNat_linuxPageAlign, Nat.mod_eq_of_lt (by omega)]

theorem mmap_of_fits {info : Stage0Info} {g : Stage0} {t : UserTrap} (h : MmapInRange g.mmapNext)
    (ht : IsMmap t.frame) (hfits : MmapFits g t.frame) :
    mmapRegion info g t = some (g.mmapNext.toNat, pageRounded t.frame.a1.toNat) ∧
      ((xnuStage0UserTrapDispatch info t.time g t.frame).val t.mem).1.mmapNext.toNat =
        g.mmapNext.toNat + pageRounded t.frame.a1.toNat ∧
      (xnuStage0UserTrapDispatch info t.time g t.frame).mem t.mem =
        writeBytes t.mem g.mmapNext (pageRounded t.frame.a1.toNat) fun _ ↦ 0 := by
  have hfits' : MmapFits (g.enter t.frame) t.frame := hfits
  obtain ⟨hval, hmem⟩ := sysMmap_of_fits hfits' info t.time t.mem
  have hround := toNat_linuxPageAlign_of_fits h hfits
  have hsum := (toNat_add_of_fits h.2 (UInt32.not_lt.mpr hfits.2)).1
  have hne : g.mmapNext ≠ linuxErrno linuxEnomem := by
    intro heq
    have := heq ▸ h.2
    exact absurd this (by decide)
  refine ⟨?_, ?_, ?_⟩
  · rw [mmapRegion, if_pos ht, dispatch_mmap ht, hval]
    dsimp only [UserFrame.ret, Stage0.enter]
    rw [if_neg hne]
  · rw [dispatch_mmap ht, hval]
    dsimp only [Stage0.enter]
    rw [hsum, hround]
  · rw [dispatch_mmap ht, hmem, hround]
    rfl

theorem mmap_of_not_fits {info : Stage0Info} {g : Stage0} {t : UserTrap} (ht : IsMmap t.frame)
    (hfits : ¬MmapFits g t.frame) :
    mmapRegion info g t = none ∧
      ((xnuStage0UserTrapDispatch info t.time g t.frame).val t.mem).1.mmapNext = g.mmapNext ∧
      (xnuStage0UserTrapDispatch info t.time g t.frame).mem t.mem = t.mem := by
  have hfits' : ¬MmapFits (g.enter t.frame) t.frame := hfits
  obtain ⟨hval, hmem⟩ := sysMmap_of_not_fits hfits' info t.time t.mem
  refine ⟨?_, ?_, ?_⟩
  · rw [mmapRegion, if_pos ht, dispatch_mmap ht, hval]
    exact if_pos rfl
  · rw [dispatch_mmap ht, hval]
    rfl
  · rw [dispatch_mmap ht, hmem]

/-- What any trap does: the front stays, or it moves behind the region that is handed out. -/
theorem mmapNext_trap {info : Stage0Info} {g : Stage0} (h : MmapInRange g.mmapNext)
    (t : UserTrap) :
    (mmapRegion info g t = none ∧
        ((xnuStage0UserTrapDispatch info t.time g t.frame).val t.mem).1.mmapNext = g.mmapNext) ∨
      (mmapRegion info g t = some (g.mmapNext.toNat, pageRounded t.frame.a1.toNat) ∧
        ((xnuStage0UserTrapDispatch info t.time g t.frame).val t.mem).1.mmapNext.toNat =
          g.mmapNext.toNat + pageRounded t.frame.a1.toNat) := by
  by_cases ht : IsMmap t.frame
  · by_cases hfits : MmapFits g t.frame
    · obtain ⟨hregion, hnext, -⟩ := @mmap_of_fits info g t h ht hfits
      exact .inr ⟨hregion, hnext⟩
    · obtain ⟨hregion, hnext, -⟩ := @mmap_of_not_fits info g t ht hfits
      exact .inl ⟨hregion, hnext⟩
  · exact .inl ⟨if_neg ht, mmapNext_dispatch ht info t.time g t.mem⟩

theorem dvd_pageRounded (n : ℕ) : 4096 ∣ pageRounded n := Dvd.intro_left _ rfl

variable {info : Stage0Info} {s : MmapRun}

theorem MmapInv.step {s' : MmapRun} {t : UserTrap} (h : MmapInv s)
    (hstep : mmapRunStep info s t = some s') :
    MmapInv s' ∧ s.kernel.mmapNext.toNat ≤ s'.kernel.mmapNext.toNat := by
  obtain ⟨g, hg, rfl⟩ := Option.map_eq_some_iff.mp hstep
  obtain ⟨_, _, rfl⟩ := Option.map_eq_some_iff.mp hg
  have hrange := mmapInRange_dispatch info t.time t.frame t.mem h.inRange
  rcases @mmapNext_trap info s.kernel h.inRange t with ⟨hregion, hnext⟩ | ⟨hregion, hnext⟩
  · refine ⟨⟨hrange, ?_, ?_⟩, ?_⟩
    · dsimp only
      rw [hnext]
      exact h.aligned
    · dsimp only
      rw [hregion, hnext]
      exact h.below
    · dsimp only
      rw [hnext]
  · refine ⟨⟨hrange, ?_, ?_⟩, ?_⟩
    · dsimp only
      rw [hnext]
      exact (Nat.dvd_add_right h.aligned).mpr (dvd_pageRounded _)
    · dsimp only
      rw [hregion, hnext]
      intro q hq
      rcases List.mem_cons.mp hq with rfl | hq
      · exact le_rfl
      · have := h.below q hq
        omega
    · dsimp only
      rw [hnext]
      exact Nat.le_add_right _ _

theorem mmapInv_of_reachable {ok : MmapRun → UserTrap → Prop}
    {lastScause lastSepc lastStval : UInt32}
    (h : Runs.Reachable (mmapRunStep info) ok ⟨.initial lastScause lastSepc lastStval, []⟩ s) :
    MmapInv s := by
  apply h.invariant
  · exact ⟨(by decide : MmapInRange 0x81004000), (by decide : 4096 ∣ 0x81004000),
      fun q hq ↦ absurd hq List.not_mem_nil⟩
  · intro s s' t hs _ hstep
    exact (hs.step hstep).1

/-- What a call of `mmap` is to do after the regions that have been handed out. -/
structure MmapRight (info : Stage0Info) (s : MmapRun) (t : UserTrap) : Prop where
  succeeds_iff : (mmapRegion info s.kernel t).isSome ↔ t.frame.a1.toNat ≠ 0 ∧
    pageRounded t.frame.a1.toNat ≤ 0x81400000 - s.kernel.mmapNext.toNat
  aligned : ∀ r ∈ mmapRegion info s.kernel t, 4096 ∣ r.1
  long : ∀ r ∈ mmapRegion info s.kernel t, t.frame.a1.toNat ≤ r.2
  inside : ∀ r ∈ mmapRegion info s.kernel t, 0x81004000 ≤ r.1 ∧ r.1 + r.2 ≤ 0x81400000
  zero : ∀ r ∈ mmapRegion info s.kernel t, ∀ x : UInt32, r.1 ≤ x.toNat → x.toNat < r.1 + r.2 →
    (xnuStage0UserTrapDispatch info t.time s.kernel t.frame).mem t.mem x = 0
  disjoint : ∀ r ∈ mmapRegion info s.kernel t, ∀ q ∈ s.regions, q.1 + q.2 ≤ r.1 ∨ r.1 + r.2 ≤ q.1
  failed : mmapRegion info s.kernel t = none →
    ((xnuStage0UserTrapDispatch info t.time s.kernel t.frame).val t.mem).1.mmapNext =
        s.kernel.mmapNext ∧
      (xnuStage0UserTrapDispatch info t.time s.kernel t.frame).mem t.mem = t.mem

theorem mmapRight_of_inv {t : UserTrap} (h : MmapInv s) (ht : IsMmap t.frame) :
    MmapRight info s t := by
  have hiff := @mmapFits_iff s.kernel t.frame h.inRange
  have hbase : 0x81004000 ≤ s.kernel.mmapNext.toNat := UInt32.le_iff_toNat_le.mp h.inRange.1
  by_cases hfits : MmapFits s.kernel t.frame
  · obtain ⟨hregion, hnext, hmem⟩ := @mmap_of_fits info s.kernel t h.inRange ht hfits
    obtain ⟨hnonzero, hroom⟩ := hiff.mp hfits
    have hlong : t.frame.a1.toNat ≤ pageRounded t.frame.a1.toNat := by
      rw [pageRounded]
      omega
    have honly : ∀ r ∈ mmapRegion info s.kernel t,
        r = (s.kernel.mmapNext.toNat, pageRounded t.frame.a1.toNat) := by
      intro r hr
      rw [hregion] at hr
      exact (Option.some.inj hr).symm
    refine ⟨?_, ?_, ?_, ?_, ?_, ?_, ?_⟩
    · rw [hregion]
      exact iff_of_true rfl ⟨hnonzero, hroom⟩
    · intro r hr
      rw [honly r hr]
      exact h.aligned
    · intro r hr
      rw [honly r hr]
      exact hlong
    · intro r hr
      rw [honly r hr]
      exact ⟨hbase, by dsimp only; omega⟩
    · intro r hr x hx hx'
      rw [honly r hr] at hx hx'
      have hsub : (x - s.kernel.mmapNext).toNat = x.toNat - s.kernel.mmapNext.toNat :=
        UInt32.toNat_sub_of_le _ _ (UInt32.le_iff_toNat_le.mpr hx)
      rw [hmem, writeBytes, if_pos]
      omega
    · intro r hr q hq
      rw [honly r hr]
      exact .inl (h.below q hq)
    · intro hnone
      exact absurd (hregion.symm.trans hnone) (by simp)
  · obtain ⟨hregion, hnext, hmem⟩ := @mmap_of_not_fits info s.kernel t ht hfits
    have hnone : ∀ r, r ∉ mmapRegion info s.kernel t := by
      intro r hr
      rw [hregion] at hr
      exact absurd hr (by simp)
    refine ⟨?_, fun r hr ↦ absurd hr (hnone r), fun r hr ↦ absurd hr (hnone r),
      fun r hr ↦ absurd hr (hnone r), fun r hr ↦ absurd hr (hnone r),
      fun r hr ↦ absurd hr (hnone r), fun _ ↦ ⟨hnext, hmem⟩⟩
    rw [hregion]
    exact iff_of_false (by simp) fun hroom ↦ hfits (hiff.mpr hroom)

/-- **The pages of `mmap`.** Over every run of user mode the front stays at a page of its range and
never goes back, and a call of `mmap` hands out pages that are cleared and have not been handed out
before, exactly where the length is not zero and fits. -/
theorem mmap_regions_disjoint {info : Stage0Info} {s : MmapRun}
    {lastScause lastSepc lastStval : UInt32}
    (h : Runs.Reachable (mmapRunStep info) (fun s t ↦ PointersInRange s.kernel t.frame t.mem)
      ⟨.initial lastScause lastSepc lastStval, []⟩ s) (t : UserTrap) :
    (4096 ∣ s.kernel.mmapNext.toNat ∧ 0x81004000 ≤ s.kernel.mmapNext.toNat ∧
        s.kernel.mmapNext.toNat ≤ 0x81400000) ∧
      (∀ s', mmapRunStep info s t = some s' → s.kernel.mmapNext ≤ s'.kernel.mmapNext) ∧
      (IsMmap t.frame → MmapRight info s t) := by
  have hinv := mmapInv_of_reachable h
  obtain ⟨hbase, hlimit⟩ := hinv.inRange
  refine ⟨⟨hinv.aligned, hbase, hlimit⟩, fun s' hstep ↦ ?_, mmapRight_of_inv hinv⟩
  exact UInt32.le_iff_toNat_le.mpr (hinv.step hstep).2

/-- A call of `mmap` for 5000 bytes. -/
def mmapTwoPages : UserTrap := ⟨0, ecall 222 0 5000 3 0x22, fun _ ↦ 65⟩

/-- The second call in a run hands out the two pages behind those of the first. -/
theorem mmap_regions_disjoint_second :
    ∃ s, mmapRunStep ⟨0, 0⟩ ⟨.initial 0 0 0, []⟩ mmapTwoPages = some s ∧
      s.regions = [(0x81004000, 8192)] ∧
      mmapRegion ⟨0, 0⟩ s.kernel mmapTwoPages = some (0x81006000, 8192) ∧
      MmapRight ⟨0, 0⟩ s mmapTwoPages := by
  have hmmap : IsMmap mmapTwoPages.frame := ⟨rfl, rfl⟩
  have hfits : MmapFits (.initial 0 0 0) mmapTwoPages.frame := ⟨by decide, by decide⟩
  have hfits' : MmapFits ((Stage0.initial 0 0 0).enter mmapTwoPages.frame) mmapTwoPages.frame :=
    hfits
  have hstep : mmapRunStep ⟨0, 0⟩ ⟨.initial 0 0 0, []⟩ mmapTwoPages = some
      ⟨{ (Stage0.initial 0 0 0).enter mmapTwoPages.frame with mmapNext := 0x81006000 },
        [(0x81004000, 8192)]⟩ := by
    rw [mmapRunStep, (mmap_of_fits (by decide) hmmap hfits).1, trapStep, dispatch_mmap hmmap,
      (sysMmap_of_fits hfits' _ _ _).1]
    rfl
  refine ⟨_, hstep, rfl, (mmap_of_fits (by decide) hmmap ⟨by decide, by decide⟩).1, ?_⟩
  refine (mmap_regions_disjoint (.next .start ?_ hstep) mmapTwoPages).2.2 hmmap
  exact fun r hr ↦ absurd hr List.not_mem_nil

end CaribeOS
