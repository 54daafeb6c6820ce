import CaribeOS.Foundation.Sv32

/-!
# The identity map of the booter

`mmu_sv32_install_identity` (`booter/mmu_sv32.c`) maps the RAM and up to three devices to themselves,
in superpages. The end of the RAM and the counter of the loop are numbers of 32 bits, and the entry of
a device is made from its base address as it is.

`identity_map_iff` says for which RAM and devices the result is what it should be: the RAM must end in
front of the last superpage, and the last device of a superpage must be at its beginning.
-/

namespace CaribeOS.IdentityMap

open Sv32

/-! ## The table as the source builds it -/

/-- `pte_super`. -/
def pteSuper (pa flags : UInt32) : UInt32 := (pa >>> 12) <<< 10 ||| (flags ||| 0x001)

/-- `PTE_R | PTE_W | PTE_X | PTE_A | PTE_D | PTE_G`. -/
def flagsRam : UInt32 := 0x002 ||| 0x004 ||| 0x008 ||| 0x040 ||| 0x080 ||| 0x020

/-- `PTE_R | PTE_W | PTE_A | PTE_D | PTE_G`. -/
def flagsIo : UInt32 := 0x002 ||| 0x004 ||| 0x040 ||| 0x080 ||| 0x020

/-- One round of the loop over the devices. -/
def mapDevice (l1 : ℕ → UInt32) (base : UInt32) : ℕ → UInt32 :=
  if base = 0 then l1 else Function.update l1 (index base) (pteSuper base flagsIo)

/-- `mmu_sv32_install_identity`, with a bound on the rounds of its first loop. -/
def mmuSv32InstallIdentity (fuel : ℕ) (ramStart ramSizeMb mmio0 mmio1 mmio2 : UInt32) :
    Option (ℕ → UInt32) := do
  let l1 ← mapSuperpages (pteSuper · flagsRam) (ramStart + ramSizeMb <<< 20) fuel ramStart fun _ ↦ 0
  pure ([mmio0, mmio1, mmio2].foldl mapDevice l1)

/-! ## The devices -/

section Devices

/-- The device whose entry is at index `i` in the end: the last one of that superpage. -/
def deviceAt (mmios : List UInt32) (i : ℕ) : Option UInt32 :=
  mmios.reverse.find? fun base ↦ base ≠ 0 ∧ base.toNat / 4194304 = i

theorem superFlags_ram : SuperFlags (flagsRam ||| 0x001) := by decide

theorem superFlags_io : SuperFlags (flagsIo ||| 0x001) := by decide

theorem of_deviceAt {mmios : List UInt32} {i : ℕ} {base : UInt32}
    (h : deviceAt mmios i = some base) : base ∈ mmios ∧ base ≠ 0 ∧ base.toNat / 4194304 = i := by
  have hmem := List.mem_of_find?_eq_some h
  have hprop := List.find?_some h
  rw [decide_eq_true_eq] at hprop
  exact ⟨List.mem_reverse.mp hmem, hprop⟩

theorem exists_deviceAt {mmios : List UInt32} {base : UInt32} (hmem : base ∈ mmios)
    (hne : base ≠ 0) : ∃ last, deviceAt mmios (base.toNat / 4194304) = some last := by
  rw [← Option.isSome_iff_exists, deviceAt, List.find?_isSome]
  exact ⟨base, List.mem_reverse.mpr hmem, decide_eq_true ⟨hne, rfl⟩⟩

/-- **The table after the devices.** -/
theorem foldl_mapDevice (mmios : List UInt32) (l1 : ℕ → UInt32) (i : ℕ) :
    mmios.foldl mapDevice l1 i = match deviceAt mmios i with
      | some base => pteSuper base flagsIo
      | none => l1 i := by
  induction mmios using List.reverseRecOn with
  | nil => rfl
  | append_singleton mmios base ih =>
    rw [List.foldl_append, List.foldl_cons, List.foldl_nil, mapDevice, deviceAt, List.reverse_append,
      List.reverse_singleton, List.singleton_append, List.find?_cons]
    by_cases hzero : base = 0
    · rw [if_pos hzero, decide_eq_false fun h ↦ h.1 hzero]
      exact ih
    rw [if_neg hzero, index_eq]
    by_cases hi : base.toNat / 4194304 = i
    · rw [decide_eq_true ⟨hzero, hi⟩, hi, Function.update_self]
    · rw [decide_eq_false fun h ↦ hi h.2, Function.update_of_ne (Ne.symm hi)]
      exact ih

end Devices

/-! ## What is mapped -/

/-- The address is translated to itself. -/
def Mapped (l1 : ℕ → UInt32) (va : UInt32) : Prop :=
  ∀ mem, ∃ pte, walk l1 mem va = some (va.toNat, pte)

/-- The RAM. -/
def InRam (ramStart ramSizeMb : UInt32) (a : ℕ) : Prop :=
  ramStart.toNat ≤ a ∧ a < ramStart.toNat + ramSizeMb.toNat * 1048576
  deriving Decidable

/-- **The identity map** is installed, and the RAM and the devices are mapped to themselves. -/
def MapsIdentity (ramStart ramSizeMb mmio0 mmio1 mmio2 : UInt32) : Prop :=
  ∃ fuel l1, mmuSv32InstallIdentity fuel ramStart ramSizeMb mmio0 mmio1 mmio2 = some l1 ∧
    (∀ va : UInt32, InRam ramStart ramSizeMb va.toNat → Mapped l1 va) ∧
    ∀ base ∈ [mmio0, mmio1, mmio2], base ≠ 0 → Mapped l1 base

section Entry

variable {l1 : ℕ → UInt32} {va base : UInt32}

theorem mapped_device_iff (hentry : l1 (va.toNat / 4194304) = pteSuper base flagsIo)
    (hsame : base.toNat / 4194304 = va.toNat / 4194304) :
    Mapped l1 va ↔ base.toNat % 4194304 < 4096 := by
  have hwalk : ∀ mem, walk l1 mem va = if base.toNat % 4194304 < 4096 then
      some (va.toNat, superEntry base (flagsIo ||| 0x001)) else none :=
    fun mem ↦ walk_identity mem superFlags_io hentry hsame
  by_cases haligned : base.toNat % 4194304 < 4096
  · refine iff_of_true (fun mem ↦ ⟨superEntry base (flagsIo ||| 0x001), ?_⟩) haligned
    rw [hwalk, if_pos haligned]
  · refine iff_of_false (fun h ↦ ?_) haligned
    obtain ⟨pte, hpte⟩ := h fun _ ↦ 0
    rw [hwalk, if_neg haligned] at hpte
    cases hpte

theorem mapped_ram (hentry : l1 (va.toNat / 4194304) = pteSuper base flagsRam)
    (hsame : base.toNat / 4194304 = va.toNat / 4194304) (haligned : 4194304 ∣ base.toNat) :
    Mapped l1 va := by
  intro mem
  have hwalk := walk_identity mem superFlags_ram hentry hsame
  rw [if_pos (by omega)] at hwalk
  exact ⟨_, hwalk⟩

theorem not_mapped_of_zero (h : l1 (va.toNat / 4194304) = 0) : ¬Mapped l1 va := by
  intro hmapped
  obtain ⟨pte, hpte⟩ := hmapped fun _ ↦ 0
  rw [walk_zero h] at hpte
  cases hpte

end Entry

section Install

variable {ramStart ramSizeMb mmio0 mmio1 mmio2 : UInt32} (haligned : 4194304 ∣ ramStart.toNat)
  (htop : ramStart.toNat + ramSizeMb.toNat * 1048576 ≤ 4294967296)

theorem toNat_end (ramStart ramSizeMb : UInt32) : (ramStart + ramSizeMb <<< 20).toNat
    = (ramStart.toNat + ramSizeMb.toNat * 1048576) % 4294967296 := by
  rw [UInt32.toNat_add, UInt32.toNat_shiftLeft]
  change (_ + ramSizeMb.toNat <<< 20 % 4294967296) % 4294967296 = _
  rw [Nat.shiftLeft_eq, Nat.add_mod_mod]

theorem install_eq {fuel : ℕ} {table : ℕ → UInt32}
    (h : mapSuperpages (pteSuper · flagsRam) (ramStart + ramSizeMb <<< 20) fuel ramStart (fun _ ↦ 0)
      = some table) :
    mmuSv32InstallIdentity fuel ramStart ramSizeMb mmio0 mmio1 mmio2
      = some ([mmio0, mmio1, mmio2].foldl mapDevice table) := by
  rw [mmuSv32InstallIdentity, h]
  rfl

end Install

/-- **When the RAM and the devices are mapped to themselves.** The RAM must be empty or end in front of
the last superpage; and of the devices in one superpage, the last one must be in its first page. -/
theorem identity_map_iff {ramStart ramSizeMb mmio0 mmio1 mmio2 : UInt32}
    (haligned : 4194304 ∣ ramStart.toNat)
    (htop : ramStart.toNat + ramSizeMb.toNat * 1048576 ≤ 4294967296)
    (hdevices : ∀ base ∈ [mmio0, mmio1, mmio2], base ≠ 0 → ¬InRam ramStart ramSizeMb base.toNat) :
    MapsIdentity ramStart ramSizeMb mmio0 mmio1 mmio2 ↔
      (ramSizeMb = 0 ∨ ramStart.toNat + ramSizeMb.toNat * 1048576 ≤ 0xffc00000) ∧
        ∀ i base, deviceAt [mmio0, mmio1, mmio2] i = some base → base.toNat % 4194304 < 4096 := by
  have hstart := ramStart.toNat_lt
  have hlast : ramStart.toNat ≤ 0xffc00000 := by omega
  have hend := toNat_end ramStart ramSizeMb
  constructor
  · rintro ⟨fuel, l1, hinstall, hram, hio⟩
    rw [mmuSv32InstallIdentity, Option.bind_eq_bind, Option.bind_eq_some_iff] at hinstall
    obtain ⟨table, hloop, hl1⟩ := hinstall
    obtain rfl := Option.some_inj.mp hl1
    refine ⟨?_, fun i base hbase ↦ ?_⟩
    · by_contra hbad
      rcases htop.lt_or_eq with hlt | heq
      · -- the loop does not end
        rw [mapSuperpages_diverges (by omega) fuel haligned] at hloop
        cases hloop
      · -- the end is zero, and nothing is entered
        obtain ⟨fuel, rfl⟩ : ∃ n, fuel = n + 1 := by
          cases fuel with
          | zero => cases hloop
          | succ n => exact ⟨n, rfl⟩
        rw [mapSuperpages, if_neg (UInt32.not_lt.mpr (UInt32.le_iff_toNat_le.mpr (by omega))),
          Option.some_inj] at hloop
        refine not_mapped_of_zero ?_ (hram ramStart ⟨le_rfl, by omega⟩)
        rw [foldl_mapDevice]
        cases hdev : deviceAt [mmio0, mmio1, mmio2] (ramStart.toNat / 4194304) with
        | none => rw [← hloop]
        | some base =>
          obtain ⟨hmem, hne, hindex⟩ := of_deviceAt hdev
          exact absurd ⟨by omega, by omega⟩ (hdevices base hmem hne)
    · obtain ⟨hmem, hne, rfl⟩ := of_deviceAt hbase
      refine (mapped_device_iff ?_ rfl).mp (hio base hmem hne)
      rw [foldl_mapDevice, hbase]
  · rintro ⟨hfit, hfirst⟩
    have hle : ramStart.toNat + ramSizeMb.toNat * 1048576 ≤ 0xffc00000 := by
      rcases hfit with hzero | hle
      · rwa [hzero, UInt32.toNat_zero, Nat.zero_mul, Nat.add_zero]
      · exact hle
    rw [Nat.mod_eq_of_lt (by omega)] at hend
    have hfuel : (ramStart + ramSizeMb <<< 20).toNat ≤ ramStart.toNat + 1024 * 4194304 := by omega
    have hloop := mapSuperpages_eq (pteSuper · flagsRam) (hend.trans_le hle) hfuel fun _ ↦ 0
    refine ⟨1025, _, install_eq hloop, fun va hva ↦ ?_, fun base hmem hne ↦ ?_⟩
    · cases hdev : deviceAt [mmio0, mmio1, mmio2] (va.toNat / 4194304) with
      | some base =>
        refine (mapped_device_iff ?_ (of_deviceAt hdev).2.2).mpr (hfirst _ _ hdev)
        rw [foldl_mapDevice, hdev]
      | none =>
        obtain ⟨hge, hlt⟩ := hva
        have hlt' := va.toNat_lt
        have hnat : (addressAt ramStart (va.toNat / 4194304)).toNat = va.toNat / 4194304 * 4194304 := by
          rw [addressAt, UInt32.toNat_ofNat', Nat.mod_eq_of_lt (by omega)]
          omega
        have hsame : (addressAt ramStart (va.toNat / 4194304)).toNat / 4194304
            = va.toNat / 4194304 := by omega
        refine mapped_ram ?_ hsame (by omega)
        rw [foldl_mapDevice, hdev]
        rw [if_pos (by omega)]
    · obtain ⟨last, hlast⟩ := exists_deviceAt hmem hne
      refine (mapped_device_iff ?_ (of_deviceAt hlast).2.2).mpr (hfirst _ _ hlast)
      rw [foldl_mapDevice, hlast]

/-- The device at `0x10001000` is not mapped to itself: its superpage faults. -/
theorem unaligned_device_not_mapped :
    (∀ base ∈ [(0x10001000 : UInt32), 0, 0], base ≠ 0 → ¬InRam 0x80000000 256 base.toNat) ∧
      ¬MapsIdentity 0x80000000 256 0x10001000 0 0 := by
  have hout : ∀ base ∈ [(0x10001000 : UInt32), 0, 0], base ≠ 0 →
      ¬InRam 0x80000000 256 base.toNat := by
    rw [List.forall_mem_cons, List.forall_mem_cons, List.forall_mem_singleton]
    decide
  refine ⟨hout, ?_⟩
  rintro ⟨fuel, l1, hinstall, -, hio⟩
  rw [mmuSv32InstallIdentity, Option.bind_eq_bind, Option.bind_eq_some_iff] at hinstall
  obtain ⟨table, -, hl1⟩ := hinstall
  obtain rfl := Option.some_inj.mp hl1
  have hsame : (0x10001000 : UInt32).toNat / 4194304 = (0x10001000 : UInt32).toNat / 4194304 := rfl
  refine absurd ((mapped_device_iff ?_ hsame).mp (hio 0x10001000 (by decide) (by decide))) (by decide)
  rfl

/-- The machine with 256 MiB of RAM at `0x80000000` and its three devices. -/
theorem identity_map_virt : MapsIdentity 0x80000000 256 0x10000000 0x0c000000 0x02000000 := by
  have hout : ∀ base ∈ [(0x10000000 : UInt32), 0x0c000000, 0x02000000], base ≠ 0 →
      ¬InRam 0x80000000 256 base.toNat := by
    rw [List.forall_mem_cons, List.forall_mem_cons, List.forall_mem_singleton]
    decide
  have haligned : ∀ base ∈ [(0x10000000 : UInt32), 0x0c000000, 0x02000000],
      base.toNat % 4194304 < 4096 := by
    rw [List.forall_mem_cons, List.forall_mem_cons, List.forall_mem_singleton]
    decide
  refine (identity_map_iff (by decide) (by decide) hout).mpr
    ⟨Or.inr (by decide), fun i base hbase ↦ ?_⟩
  exact haligned base (of_deviceAt hbase).1

end CaribeOS.IdentityMap
