import CaribeOS.Stage0.Confinement
import CaribeOS.Stage0.UserMmu

/-!
# The user program and the kernel in one memory

While the user program runs, it stores bytes through the page table that `stage0_install_umode_mmu`
has built, and it traps; the handlers read and write the same memory. `kernel_memory_kept`: however
stores and traps follow each other, memory outside the user region stays as it was, as long as the
traps have their pointers in that region.
-/

namespace CaribeOS

open ByteMemory

/-- The kernel's variables and the memory. -/
structure UserMachine where
  kernel : Stage0
  mem : Mem

/-- The program stores a byte, or it traps with the registers it has chosen. -/
inductive UserAction where
  | store (va : UInt32) (value : UInt8)
  | trap (time : UInt64) (frame : UserFrame)

/-- A store goes where the page table translates to, with the memory `ptes` for tables of the second
level; a trap ends in user mode again unless the hart is parked. -/
def userStep (info : Stage0Info) (table ptes : ℕ → UInt32) (s : UserMachine) :
    UserAction → Option UserMachine
  | .store va value => (Sv32.userWalk table ptes va).map fun pa ↦
    { s with mem := fun x ↦ if x.toNat = pa then value else s.mem x }
  | .trap time frame =>
    let prog := xnuStage0UserTrapDispatch info time s.kernel frame
    (prog.val s.mem).2.map fun _ ↦ ⟨(prog.val s.mem).1, prog.mem s.mem⟩

/-- The pointers of a trap are in the user region. -/
def UserAction.InRange (s : UserMachine) : UserAction → Prop
  | .store _ _ => True
  | .trap _ frame => PointersInRange s.kernel frame s.mem

theorem inUserRegion_of_toNat {x : UInt32} (h : UserMmu.InUserRegion x.toNat) : InUserRegion x :=
  (inBlock_iff (by decide)).mpr h

variable {info : Stage0Info} {ptes table : ℕ → UInt32} {s : UserMachine}

/-- **Step lemma.** Memory outside the user region is not changed. -/
theorem userStep_sameOutside {t : UserMachine} {a : UserAction}
    (hall : ∀ i, UserMmu.Isolated i (table i)) (hmmap : MmapInRange s.kernel.mmapNext)
    (ha : a.InRange s) (h : userStep info table ptes s a = some t) :
    MmapInRange t.kernel.mmapNext ∧ SameOutside InUserRegion s.mem t.mem := by
  cases a with
  | store va value =>
    obtain ⟨pa, hwalk, rfl⟩ := Option.map_eq_some_iff.mp h
    obtain ⟨hva, rfl⟩ := UserMmu.userWalk_isolated hall hwalk
    refine ⟨hmmap, fun x hx ↦ if_neg fun heq ↦ hx (inUserRegion_of_toNat ?_)⟩
    rw [heq]
    exact hva
  | trap time frame =>
    obtain ⟨_, _, rfl⟩ := Option.map_eq_some_iff.mp h
    exact ⟨mmapInRange_dispatch info time frame s.mem hmmap,
      ((confined_iff_of_mmapInRange hmmap info time frame s.mem).mpr ha).mem⟩

/-- **The kernel's memory is kept** over every run of the user program, with its stores and traps in
any order: the program cannot store outside its superpage, and what the handlers write for it is
there as well. -/
theorem kernel_memory_kept {memBase memSize plicBase aclintBase : UInt32}
    (hfit : memBase.toNat + memSize.toNat ≤ 0xffc00000)
    (htable : UserMmu.stage0InstallUmodeMmu 1025 memBase memSize plicBase aclintBase = some table)
    {lastScause lastSepc lastStval : UInt32} {m : Mem}
    (h : Runs.Reachable (userStep info table ptes) (fun s a ↦ a.InRange s)
      ⟨.initial lastScause lastSepc lastStval, m⟩ s) : SameOutside InUserRegion m s.mem := by
  obtain ⟨ram, hinstall, hram⟩ := UserMmu.exists_table hfit plicBase aclintBase
  obtain rfl := Option.some_inj.mp (htable.symm.trans (hinstall 1025 le_rfl))
  have hall := UserMmu.isolated_installed hfit plicBase aclintBase hram
  refine (h.invariant (fun s ↦ MmapInRange s.kernel.mmapNext ∧ SameOutside InUserRegion m s.mem)
    ⟨(by decide : MmapInRange 0x81004000), SameOutside.refl _ _⟩ ?_).2
  intro s t a hs ha hstep
  obtain ⟨hmmap, hmem⟩ := userStep_sameOutside hall hs.1 ha hstep
  exact ⟨hmmap, hs.2.trans hmem⟩

/-- The table of a machine that has no other memory than the user region. -/
def smallTable : ℕ → UInt32 :=
  (UserMmu.stage0InstallUmodeMmu 1025 0x81000000 0x400000 0x0c000000 0x02000000).getD fun _ ↦ 0

/-- There, the program stores a byte and has it written out. -/
theorem kernel_memory_kept_small : ∃ s,
    Runs.Reachable (userStep ⟨0, 0⟩ smallTable fun _ ↦ 0) (fun s a ↦ a.InRange s)
        ⟨.initial 0 0 0, fun _ ↦ 65⟩ s ∧
      s.mem 0x81000000 = 66 ∧ SameOutside InUserRegion (fun _ ↦ 65) s.mem := by
  have hstore : Runs.Reachable (userStep ⟨0, 0⟩ smallTable fun _ ↦ 0) (fun s a ↦ a.InRange s)
      ⟨.initial 0 0 0, fun _ ↦ 65⟩
      ⟨.initial 0 0 0, fun x ↦ if x.toNat = 0x81000000 then 66 else 65⟩ :=
    .next (a := .store 0x81000000 66) .start trivial rfl
  have hwrite : UserAction.InRange
      ⟨.initial 0 0 0, fun x ↦ if x.toNat = 0x81000000 then 66 else 65⟩
      (.trap 0 (ecall 64 1 0x81000000 1 0)) := by
    rw [UserAction.InRange, PointersInRange]
    decide
  have htable : UserMmu.stage0InstallUmodeMmu 1025 0x81000000 0x400000 0x0c000000 0x02000000
      = some smallTable := rfl
  have hrun := hstore.next hwrite rfl
  exact ⟨_, hrun, rfl, kernel_memory_kept (by decide) htable hrun⟩

end CaribeOS
