import CaribeOS.Foundation.Sv32

/-!
# The page table for user mode

`stage0_install_umode_mmu` (`kernel_xnu_entry.c`) maps the RAM to itself in superpages and gives one of
them, at `0x81000000`, to user mode. Then it maps three superpages of devices, which may overwrite
entries of the RAM.

`user_isolation`: user mode has access to addresses of that one superpage only, and these are
translated to themselves.
-/

namespace CaribeOS.UserMmu

open Sv32

/-! ## The table as the source builds it -/

/-- `PTE_R | PTE_W | PTE_X | PTE_A | PTE_D | PTE_G`. -/
def kernelFlags : UInt32 := 0x002 ||| 0x004 ||| 0x008 ||| 0x040 ||| 0x080 ||| 0x020

/-- `kernel_flags | PTE_U`. -/
def userFlags : UInt32 := kernelFlags ||| 0x010

/-- `PTE_R | PTE_W | PTE_A | PTE_D | PTE_G`. -/
def ioFlags : UInt32 := 0x002 ||| 0x004 ||| 0x040 ||| 0x080 ||| 0x020

/-- `pte_super_stage0`. -/
def pteSuperStage0 (pa flags : UInt32) : UInt32 := (pa >>> 12) <<< 10 ||| flags ||| 0x001

/-- `stage0_map_super`. -/
def stage0MapSuper (table : ℕ → UInt32) (va pa flags : UInt32) : ℕ → UInt32 :=
  Function.update table (index va) (pteSuperStage0 pa flags)

/-- The flags of the superpage at `va`. -/
def ramFlags (va : UInt32) : UInt32 := if va = 0x81000000 then userFlags else kernelFlags

/-- `stage0_install_umode_mmu`, with a bound on the rounds of its loop. -/
def stage0InstallUmodeMmu (fuel : ℕ) (memBase memSize plicBase aclintBase : UInt32) :
    Option (ℕ → UInt32) := do
  let table ← mapSuperpages (fun va ↦ pteSuperStage0 va (ramFlags va)) (memBase + memSize) fuel
    memBase fun _ ↦ 0
  let table := stage0MapSuper table 0x10000000 0x10000000 ioFlags
  let table := stage0MapSuper table plicBase plicBase ioFlags
  pure (stage0MapSuper table aclintBase aclintBase ioFlags)

/-! ## The entries -/

theorem pteSuperStage0_eq (pa flags : UInt32) :
    pteSuperStage0 pa flags = superEntry pa (flags ||| 0x001) := by
  rw [pteSuperStage0, superEntry, UInt32.or_assoc]

theorem superFlags_ram (va : UInt32) : SuperFlags (ramFlags va ||| 0x001) := by
  rw [ramFlags]
  split_ifs <;> decide

theorem superFlags_io : SuperFlags (ioFlags ||| 0x001) := by decide

/-- An address of the superpage that user mode gets. -/
def InUserRegion (a : ℕ) : Prop := 0x81000000 ≤ a ∧ a < 0x81400000
  deriving Decidable

theorem inUserRegion_iff (a : ℕ) : InUserRegion a ↔ a / 4194304 = 516 := by
  rw [InUserRegion]
  omega

/-- An entry of the table: none, or one that is a user entry only at the index of the user region. -/
structure Isolated (i : ℕ) (pte : UInt32) : Prop where
  super : pte = 0 ∨ ∃ pa flags, SuperFlags flags ∧ pte = superEntry pa flags ∧
    (bit flags 4 = true → pa = 0x81000000 ∧ i = 516)

theorem isolated_io (pa : UInt32) (i : ℕ) : Isolated i (pteSuperStage0 pa ioFlags) := by
  refine ⟨Or.inr ⟨pa, _, superFlags_io, pteSuperStage0_eq _ _, fun huser ↦ ?_⟩⟩
  exact absurd huser (by decide)

theorem isolated_update {table : ℕ → UInt32} (h : ∀ i, Isolated i (table i)) (va pa : UInt32) (i : ℕ) :
    Isolated i (stage0MapSuper table va pa ioFlags i) := by
  rw [stage0MapSuper]
  by_cases hi : i = index va
  · rw [hi, Function.update_self]
    exact isolated_io pa _
  · rw [Function.update_of_ne hi]
    exact h i

section Install

variable {memBase memSize plicBase aclintBase : UInt32}
  (hfit : memBase.toNat + memSize.toNat ≤ 0xffc00000)
include hfit

theorem toNat_ramEnd : (memBase + memSize).toNat = memBase.toNat + memSize.toNat := by
  rw [UInt32.toNat_add]
  exact Nat.mod_eq_of_lt (by omega)

theorem exists_table (plicBase aclintBase : UInt32) : ∃ ram : ℕ → UInt32,
    (∀ fuel ≥ 1025, stage0InstallUmodeMmu fuel memBase memSize plicBase aclintBase
      = some (stage0MapSuper (stage0MapSuper (stage0MapSuper ram 0x10000000 0x10000000 ioFlags)
        plicBase plicBase ioFlags) aclintBase aclintBase ioFlags)) ∧
    ∀ i, ram i = if memBase.toNat / 4194304 ≤ i ∧
        memBase.toNat + (i - memBase.toNat / 4194304) * 4194304 < memBase.toNat + memSize.toNat then
      pteSuperStage0 (addressAt memBase i) (ramFlags (addressAt memBase i)) else 0 := by
  have hend := toNat_ramEnd hfit
  refine ⟨_, fun fuel hfuel ↦ ?_, fun i ↦ rfl⟩
  obtain ⟨fuel, rfl⟩ : ∃ n, fuel = n + 1 := ⟨fuel - 1, by omega⟩
  have hstop : (memBase + memSize).toNat ≤ 0xffc00000 := hend.trans_le hfit
  have hfuel : (memBase + memSize).toNat ≤ memBase.toNat + fuel * 4194304 := by omega
  have hloop := mapSuperpages_eq (fun va ↦ pteSuperStage0 va (ramFlags va)) hstop hfuel fun _ ↦ 0
  rw [hend] at hloop
  rw [stage0InstallUmodeMmu, hloop]
  rfl

theorem toNat_addressAt {i : ℕ} (hle : memBase.toNat / 4194304 ≤ i)
    (hlt : memBase.toNat + (i - memBase.toNat / 4194304) * 4194304
      < memBase.toNat + memSize.toNat) :
    (addressAt memBase i).toNat = memBase.toNat + (i - memBase.toNat / 4194304) * 4194304 ∧
      (addressAt memBase i).toNat / 4194304 = i := by
  have hnat : (addressAt memBase i).toNat
      = memBase.toNat + (i - memBase.toNat / 4194304) * 4194304 := by
    rw [addressAt, UInt32.toNat_ofNat']
    exact Nat.mod_eq_of_lt (by omega)
  exact ⟨hnat, by omega⟩

theorem isolated_installed (plicBase aclintBase : UInt32) {ram : ℕ → UInt32}
    (hram : ∀ i, ram i = if memBase.toNat / 4194304 ≤ i ∧
        memBase.toNat + (i - memBase.toNat / 4194304) * 4194304 < memBase.toNat + memSize.toNat then
      pteSuperStage0 (addressAt memBase i) (ramFlags (addressAt memBase i)) else 0) (i : ℕ) :
    Isolated i (stage0MapSuper (stage0MapSuper (stage0MapSuper ram 0x10000000 0x10000000 ioFlags)
      plicBase plicBase ioFlags) aclintBase aclintBase ioFlags i) := by
  refine isolated_update (isolated_update (isolated_update (fun i ↦ ?_) 0x10000000 0x10000000)
    plicBase plicBase) aclintBase aclintBase i
  rw [hram]
  split_ifs with hi
  · obtain ⟨hnat, hindex⟩ := toNat_addressAt hfit hi.1 hi.2
    refine ⟨Or.inr ⟨_, _, superFlags_ram _, pteSuperStage0_eq _ _, fun huser ↦ ?_⟩⟩
    have hva : addressAt memBase i = 0x81000000 := by
      by_contra hne
      rw [ramFlags, if_neg hne] at huser
      exact absurd huser (by decide)
    rw [hva] at hindex
    exact ⟨hva, hindex.symm⟩
  · exact ⟨Or.inl rfl⟩

end Install

section Isolated

variable {table : ℕ → UInt32} (hall : ∀ i, Isolated i (table i)) {mem : ℕ → UInt32} {va : UInt32}
include hall

theorem walk_isolated {pa : ℕ} {pte : UInt32} (hwalk : walk table mem va = some (pa, pte))
    (huser : bit pte 4 = true) : InUserRegion va.toNat ∧ pa = va.toNat := by
  rcases (hall (va.toNat / 4194304)).super with hzero | ⟨base, flags, hflags, hentry, honly⟩
  · rw [walk_zero hzero] at hwalk
    cases hwalk
  · rw [walk_superEntry hflags hentry] at hwalk
    split_ifs at hwalk
    obtain ⟨rfl, rfl⟩ := Prod.mk.inj (Option.some_inj.mp hwalk)
    rw [bit_superEntry hflags.lt (by decide)] at huser
    obtain ⟨rfl, hindex⟩ := honly huser
    refine ⟨(inUserRegion_iff _).mpr hindex, ?_⟩
    change 516 * 4194304 + _ = _
    omega

theorem userWalk_isolated {pa : ℕ} (h : userWalk table mem va = some pa) :
    InUserRegion va.toNat ∧ pa = va.toNat := by
  rw [userWalk] at h
  split at h
  · rename_i pa' pte hwalk
    split_ifs at h with huser
    obtain rfl := Option.some_inj.mp h
    exact walk_isolated hall hwalk huser
  · cases h

end Isolated

/-- **User mode is confined** to its superpage: what it can access is there and is translated to
itself. If the RAM begins at a superpage and holds the user region, and no device is in that region,
user mode has access to all of it. -/
theorem user_isolation {memBase memSize plicBase aclintBase : UInt32}
    (hfit : memBase.toNat + memSize.toNat ≤ 0xffc00000) :
    ∃ table, (∀ fuel ≥ 1025,
        stage0InstallUmodeMmu fuel memBase memSize plicBase aclintBase = some table) ∧
      ∀ mem,
        (∀ va pa pte, walk table mem va = some (pa, pte) → bit pte 4 = true →
          InUserRegion va.toNat ∧ pa = va.toNat) ∧
        (∀ a, ¬InUserRegion a → (∀ va, userWalk table mem va ≠ some a) ∧
          ∀ va : UInt32, va.toNat = a → userWalk table mem va = none) ∧
        (4194304 ∣ memBase.toNat → memBase.toNat ≤ 0x81000000 →
          0x81400000 ≤ memBase.toNat + memSize.toNat → ¬InUserRegion plicBase.toNat →
          ¬InUserRegion aclintBase.toNat →
          ∀ va : UInt32, InUserRegion va.toNat → userWalk table mem va = some va.toNat) := by
  obtain ⟨ram, hinstall, hram⟩ := exists_table hfit plicBase aclintBase
  refine ⟨_, hinstall, fun mem ↦ ?_⟩
  have hall := isolated_installed hfit plicBase aclintBase hram
  generalize htable : stage0MapSuper (stage0MapSuper (stage0MapSuper ram 0x10000000 0x10000000
    ioFlags) plicBase plicBase ioFlags) aclintBase aclintBase ioFlags = table at hall ⊢
  refine ⟨fun va pa pte ↦ walk_isolated hall, fun a ha ↦ ⟨fun va hva ↦ ?_, fun va hva ↦ ?_⟩, ?_⟩
  · obtain ⟨hin, heq⟩ := userWalk_isolated hall hva
    exact ha (heq ▸ hin)
  · by_contra hne
    obtain ⟨pa, hpa⟩ := Option.ne_none_iff_exists'.mp hne
    exact ha (hva ▸ (userWalk_isolated hall hpa).1)
  · -- the loop comes to the user region, and the devices do not overwrite its entry
    intro haligned hbelow habove hplic haclint va hva
    rw [inUserRegion_iff] at hplic haclint hva
    have hentry : table 516 = superEntry 0x81000000 (userFlags ||| 0x001) := by
      rw [← htable, stage0MapSuper, Function.update_of_ne (by rw [index_eq]; exact Ne.symm haclint),
        stage0MapSuper, Function.update_of_ne (by rw [index_eq]; exact Ne.symm hplic), stage0MapSuper,
        Function.update_of_ne (by decide), hram, if_pos (by omega)]
      have hat : addressAt memBase 516 = 0x81000000 := by
        rw [addressAt, show memBase.toNat + (516 - memBase.toNat / 4194304) * 4194304 = 0x81000000 by
          omega]
        rfl
      rw [hat, pteSuperStage0_eq]
      rfl
    have hwalk : walk table mem va = some (va.toNat, superEntry 0x81000000 (userFlags ||| 0x001)) := by
      rw [← hva] at hentry
      have hbase : (0x81000000 : UInt32).toNat / 4194304 = va.toNat / 4194304 := by
        rw [hva]
        rfl
      rw [walk_identity mem (by decide) hentry hbase, if_pos (by decide)]
    rw [userWalk, hwalk]
    dsimp only
    rw [if_pos]
    rw [bit_superEntry (by decide) (by decide)]
    decide

/-- The machine with 256 MiB of RAM at `0x80000000`. -/
theorem user_isolation_virt : ∃ table,
    (∀ fuel ≥ 1025, stage0InstallUmodeMmu fuel 0x80000000 0x10000000 0x0c000000 0x02000000
      = some table) ∧
      ∀ va : UInt32, InUserRegion va.toNat → userWalk table (fun _ ↦ 0) va = some va.toNat := by
  obtain ⟨table, hinstall, hmem⟩ := @user_isolation 0x80000000 0x10000000 0x0c000000 0x02000000
    (by decide)
  exact ⟨table, hinstall, (hmem _).2.2 (by decide) (by decide) (by decide) (by decide) (by decide)⟩

end CaribeOS.UserMmu
