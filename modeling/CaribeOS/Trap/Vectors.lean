import CaribeOS.Foundation.Rv32

/-!
# The trap vectors

The three trap vectors of the boot chain, instruction by instruction: the booter's `trap_entry`
(`booter/trap_entry.S`), and the stage0 kernel's `xnu_stage0_trap_vector` and
`xnu_stage0_user_trap_vector` (`kernel_xnu_stage0_trap.S`). Each saves part of the register file on
a stack, calls a C function and restores what it saved.

A register of the interrupted code survives for one of two reasons: the vector restores it, or the
calling convention obliges the C function to keep it. The theorems say which registers have neither
reason. `trap_entry` leaves out `t3` .. `t6`, the stage0 vector leaves out `a6`, `a7` and
`t3` .. `t6`, and the user vector leaves out `t3` .. `t6` and returns the user stack pointer in `t0`.
-/

namespace CaribeOS

open Rv32 ByteMemory
open scoped List

/-- The C functions that the vectors call. -/
inductive TrapFunction
  | trapHandleC
  | xnuStage0TrapDispatch
  | xnuStage0UserTrapDispatch

/-! ## The vectors as they stand in the source

`trap_entry` and `xnu_stage0_trap_vector` are two members of one family: they differ in the frame
size, the slots, the order of the loads and what is done with the C function's result. -/

/-- The arguments of an interrupt handler: `scause`, `sepc` and `stval`. -/
def interruptArgs : List (Instr TrapFunction) :=
  [.csrr .a0 .scause, .csrr .a1 .sepc, .csrr .a2 .stval]

/-- A vector that saves `slots` in a frame of `size` bytes, calls `f`, runs `after`, and loads
`loads` back. -/
def interruptVector (size : UInt32) (slots : List (Reg × UInt32)) (f : TrapFunction)
    (after : List (Instr TrapFunction)) (loads : List (Reg × UInt32)) : List (Instr TrapFunction) :=
  [[.addi .sp .sp (-size)], saveRegs slots, interruptArgs, [.call f], after, restoreRegs loads,
    [.addi .sp .sp size, .sret]].flatten

/-- The slots of `trap_entry`'s frame. -/
def trapEntrySlots : List (Reg × UInt32) :=
  [(.ra, 124), (.t0, 120), (.t1, 116), (.t2, 112), (.a0, 108), (.a1, 104), (.a2, 100), (.a3, 96),
    (.a4, 92), (.a5, 88), (.a6, 84), (.a7, 80), (.s0, 76), (.s1, 72), (.s2, 68), (.s3, 64),
    (.s4, 60), (.s5, 56), (.s6, 52), (.s7, 48), (.s8, 44), (.s9, 40), (.s10, 36), (.s11, 32)]

/-- `trap_entry`: `a0` comes back from `trap_handle_c` as the new `sepc`. -/
def trapEntry : List (Instr TrapFunction) :=
  interruptVector 128 trapEntrySlots .trapHandleC [.csrw .sepc .a0] trapEntrySlots

/-- The slots of `xnu_stage0_trap_vector`'s frame, in the order of the stores. -/
def xnuStage0TrapSlots : List (Reg × UInt32) :=
  [(.ra, 60), (.a0, 56), (.a1, 52), (.a2, 48), (.a3, 44), (.a4, 40), (.a5, 36), (.t0, 32),
    (.t1, 28), (.t2, 24)]

/-- `xnu_stage0_trap_vector`: the loads run through the slots in the opposite order. -/
def xnuStage0TrapVector : List (Instr TrapFunction) :=
  interruptVector 64 xnuStage0TrapSlots .xnuStage0TrapDispatch [] xnuStage0TrapSlots.reverse

/-- The registers `xnu_stage0_user_trap_vector` stores, at their place in
`xnu_stage0_user_frame_t`. -/
def userFrameSaved : List (Reg × UInt32) :=
  [(.ra, 0), (.gp, 4), (.tp, 8), (.t0, 12), (.t1, 16), (.t2, 20), (.s0, 24), (.s1, 28), (.a0, 32),
    (.a1, 36), (.a2, 40), (.a3, 44), (.a4, 48), (.a5, 52), (.a6, 56), (.a7, 60)]

/-- The registers it loads again: all it stored but `t0`, which carries the user stack pointer. -/
def userFrameRestored : List (Reg × UInt32) :=
  [(.ra, 0), (.gp, 4), (.tp, 8), (.t1, 16), (.t2, 20), (.s0, 24), (.s1, 28), (.a0, 32),
    (.a1, 36), (.a2, 40), (.a3, 44), (.a4, 48), (.a5, 52), (.a6, 56), (.a7, 60)]

/-- The part of `xnu_stage0_user_trap_vector` before the call. After the swap `sscratch` holds the
user stack pointer; it goes to the frame with `sepc`, `scause` and `stval`. -/
def xnuStage0UserTrapEntry : List (Instr TrapFunction) :=
  [[.csrrw .sp .sscratch .sp, .addi .sp .sp (-96)], saveRegs userFrameSaved,
    spillCsr .t0 (.sscratch, 64), spillCsr .t0 (.sepc, 68), spillCsr .t0 (.scause, 72),
    spillCsr .t0 (.stval, 76), [.mv .a0 .sp]].flatten

/-- The part of `xnu_stage0_user_trap_vector` after the call. -/
def xnuStage0UserTrapExit : List (Instr TrapFunction) :=
  [[.lw .t0 68 .sp, .csrw .sepc .t0, .lw .t0 64 .sp], restoreRegs userFrameRestored,
    [.addi .sp .sp 96, .csrw .sscratch .sp, .mv .sp .t0, .sret]].flatten

/-- `xnu_stage0_user_trap_vector`. -/
def xnuStage0UserTrapVector : List (Instr TrapFunction) :=
  [xnuStage0UserTrapEntry, [.call .xnuStage0UserTrapDispatch], xnuStage0UserTrapExit].flatten

/-! ## Vectors of the interrupt shape -/

variable {p : Reg × UInt32} {r : Reg}

variable {after : List (Instr TrapFunction)} {f : TrapFunction} {loads : List (Reg × UInt32)}

section Interrupt

variable (env : TrapFunction → Machine → Machine) (size : UInt32) (slots : List (Reg × UInt32))

/-- Frame, saves and arguments: the machine that the C function is called on. -/
def interruptEntry (m : Machine) : Machine :=
  run env (run env (exec env m (.addi .sp .sp (-size))) (saveRegs slots)) interruptArgs

theorem interruptEntry_get (m : Machine) (hsp : r ≠ .sp) (hargs : r ≠ .a0 ∧ r ≠ .a1 ∧ r ≠ .a2) :
    (interruptEntry env size slots m).get r = m.get r := by
  rw [interruptEntry, interruptArgs]
  simp only [run_cons, run_nil, exec]
  rw [Machine.get_set_of_ne _ _ hargs.2.2, Machine.get_set_of_ne _ _ hargs.2.1,
    Machine.get_set_of_ne _ _ hargs.1, run_saveRegs_get, Machine.get_set_of_ne _ _ hsp]

theorem interruptEntry_sp (m : Machine) :
    (interruptEntry env size slots m).get .sp = m.get .sp - size := by
  rw [interruptEntry, interruptArgs]
  simp only [run_cons, run_nil, exec]
  rw [Machine.get_set_of_ne _ _ (by decide), Machine.get_set_of_ne _ _ (by decide),
    Machine.get_set_of_ne _ _ (by decide), run_saveRegs_get, Machine.get_set_same _ _ (by decide)]
  grind

theorem loadWord_interruptEntry (m : Machine)
    (hdisj : slots.Pairwise fun p q ↦ WordDisjoint p.2 q.2) (hsp : .sp ∉ slots.map Prod.fst)
    (hp : p ∈ slots) :
    loadWord (interruptEntry env size slots m).mem
      ((interruptEntry env size slots m).get .sp + p.2) = m.get p.1 := by
  have hne : p.1 ≠ .sp := fun h ↦ hsp (h ▸ List.mem_map_of_mem hp)
  set m' := exec env m (.addi .sp .sp (-size)) with hm'
  have hmem : (interruptEntry env size slots m).mem = (run env m' (saveRegs slots)).mem := rfl
  have hbase : (interruptEntry env size slots m).get .sp = m'.get .sp := by
    rw [interruptEntry_sp, hm', exec, Machine.get_set_same _ _ (by decide)]
    grind
  rw [hmem, hbase, loadWord_run_saveRegs env slots m' hdisj hp, hm', exec,
    Machine.get_set_of_ne _ _ hne]

/-- The frame size, the slots and the order in which they are loaded fit together: no two slots
overlap, all lie in the frame, and every slot is loaded once. -/
structure FrameLayout (size : UInt32) (slots loads : List (Reg × UInt32)) : Prop where
  disjoint : slots.Pairwise fun p q ↦ WordDisjoint p.2 q.2
  noStackPointer : .sp ∉ slots.map Prod.fst
  noZero : .zero ∉ slots.map Prod.fst
  inFrame : ∀ p ∈ slots, p.2 ≤ size - 4
  atLeastWord : 4 ≤ size
  perm : loads.Perm slots
  nodup : (slots.map Prod.fst).Nodup

/-- **What an interrupt vector does to a register.** A register with a slot and a register that the
callee must keep come back; of any other register the caller sees what the callee left there. -/
theorem interruptVector_get (hlayout : FrameLayout size slots loads)
    (hcall : AbiCall (env f) size [])
    (hafter : ∀ m, (run env m after).reg = m.reg ∧ (run env m after).mem = m.mem) (m : Machine)
    (r : Reg) :
    (run env m (interruptVector size slots f after loads)).get r
      = if r ∈ slots.map Prod.fst ∨ r.calleeSaved = true then m.get r
        else (env f (interruptEntry env size slots m)).get r := by
  set e := interruptEntry env size slots m with he
  set c := run env (env f e) after with hc
  set q := run env c (restoreRegs loads) with hq
  have hregs : loads.map Prod.fst ~ slots.map Prod.fst := hlayout.perm.map _
  have hcget : ∀ x, c.get x = (env f e).get x := fun x ↦ by
    rw [Machine.get, Machine.get, hc, (hafter _).1]
  have hcmem : c.mem = (env f e).mem := (hafter _).2
  have hcsp : c.get .sp = e.get .sp := by rw [hcget, hcall.saved _ _ rfl]
  have hqsp : q.get .sp = e.get .sp := by
    rw [hq, run_restoreRegs_get_of_notMem _ _ _ (mt hregs.mem_iff.mp hlayout.noStackPointer), hcsp]
  have hrun : run env m (interruptVector size slots f after loads)
      = exec env (exec env q (.addi .sp .sp size)) .sret := by
    simp only [interruptVector, List.flatten_cons, List.flatten_nil, run_append, run_cons, run_nil]
    rfl
  have hsret : ∀ x, (exec env (exec env q (.addi .sp .sp size)) .sret).get x
      = (q.set .sp (q.get .sp + size)).get x := fun _ ↦ rfl
  rw [hrun, hsret]
  by_cases hsp : r = .sp
  · subst hsp
    rw [if_pos (Or.inr (by rfl)), Machine.get_set_same _ _ (by decide), hqsp, he, interruptEntry_sp]
    grind
  rw [Machine.get_set_of_ne _ _ hsp]
  by_cases hslot : r ∈ slots.map Prod.fst
  · -- the slot was written before the call, kept by the callee and read after it
    obtain ⟨p, hp, rfl⟩ := List.mem_map.mp hslot
    rw [if_pos (Or.inl hslot), hq,
      run_restoreRegs_get env loads c (mt hregs.mem_iff.mp hlayout.noStackPointer)
        (mt hregs.mem_iff.mp hlayout.noZero) (hregs.nodup_iff.mpr hlayout.nodup)
        (hlayout.perm.mem_iff.mpr hp),
      hcmem, hcsp, hcall.loadWord_frame e (hlayout.inFrame p hp) hlayout.atLeastWord (by simp)]
    exact loadWord_interruptEntry env size slots m hlayout.disjoint hlayout.noStackPointer hp
  · rw [hq, run_restoreRegs_get_of_notMem _ _ _ (mt hregs.mem_iff.mp hslot), hcget]
    by_cases hsaved : r.calleeSaved = true
    · have hargs : r ≠ .a0 ∧ r ≠ .a1 ∧ r ≠ .a2 := by
        refine ⟨?_, ?_, ?_⟩ <;> rintro rfl <;> exact absurd hsaved (by decide)
      rw [if_pos (Or.inr hsaved), hcall.saved _ _ hsaved, he, interruptEntry_get _ _ _ _ hsp hargs]
    · rw [if_neg (by rintro (h | h) <;> contradiction)]

end Interrupt

/-! ## Interrupt transparency -/

/-- The registers of the interrupted code all come back. -/
def Transparent (m m' : Machine) : Prop := ∀ r, m'.get r = m.get r

/-- A vector is transparent exactly when the callee happens to keep the registers in `lost`: those
that have no slot and that the calling convention gives away. -/
theorem interruptVector_transparent_iff (env : TrapFunction → Machine → Machine) {size : UInt32}
    {slots : List (Reg × UInt32)} {lost : List Reg} (hlayout : FrameLayout size slots loads)
    (hcall : AbiCall (env f) size [])
    (hafter : ∀ m, (run env m after).reg = m.reg ∧ (run env m after).mem = m.mem)
    (hlost : ∀ r, ¬(r ∈ slots.map Prod.fst ∨ r.calleeSaved = true) ↔ r = .zero ∨ r ∈ lost)
    (m : Machine) :
    Transparent m (run env m (interruptVector size slots f after loads))
      ↔ ∀ r ∈ lost, (env f (interruptEntry env size slots m)).get r = m.get r := by
  have hget := interruptVector_get env size slots hlayout hcall hafter m
  constructor
  · intro ht r hr
    rw [← ht r, hget, if_neg ((hlost r).mpr (Or.inr hr))]
  · intro hr r
    rw [hget]
    by_cases hkept : r ∈ slots.map Prod.fst ∨ r.calleeSaved = true
    · rw [if_pos hkept]
    · rw [if_neg hkept]
      rcases (hlost r).mp hkept with rfl | hr'
      · rfl
      · exact hr r hr'

theorem trapEntry_layout : FrameLayout 128 trapEntrySlots trapEntrySlots := by
  refine ⟨by decide, by decide, by decide, by decide, by decide, List.Perm.refl _, by decide⟩

theorem xnuStage0Trap_layout : FrameLayout 64 xnuStage0TrapSlots xnuStage0TrapSlots.reverse := by
  refine ⟨by decide, by decide, by decide, by decide, by decide, List.reverse_perm _, by decide⟩

/-- The temporaries that no vector saves. -/
def unsavedTemporaries : List Reg := [.t3, .t4, .t5, .t6]

section Transparency

variable (env : TrapFunction → Machine → Machine) (m : Machine)

/-- The machine that `trap_handle_c` leaves behind. -/
def afterTrapHandleC : Machine := env .trapHandleC (interruptEntry env 128 trapEntrySlots m)

/-- The machine that `xnu_stage0_trap_dispatch` leaves behind. -/
def afterXnuStage0TrapDispatch : Machine :=
  env .xnuStage0TrapDispatch (interruptEntry env 64 xnuStage0TrapSlots m)

theorem trapEntry_transparent_iff (h : AbiCall (env .trapHandleC) 128 []) :
    Transparent m (run env m trapEntry)
      ↔ ∀ r ∈ unsavedTemporaries, (afterTrapHandleC env m).get r = m.get r :=
  interruptVector_transparent_iff env trapEntry_layout h (fun _ ↦ ⟨rfl, rfl⟩)
    (fun r ↦ by cases r <;> decide) m

theorem xnuStage0TrapVector_transparent_iff (h : AbiCall (env .xnuStage0TrapDispatch) 64 []) :
    Transparent m (run env m xnuStage0TrapVector)
      ↔ ∀ r ∈ [Reg.a6, .a7] ++ unsavedTemporaries,
        (afterXnuStage0TrapDispatch env m).get r = m.get r :=
  interruptVector_transparent_iff env xnuStage0Trap_layout h (fun _ ↦ ⟨rfl, rfl⟩)
    (fun r ↦ by cases r <;> decide) m

/-- **Interrupt transparency.** The interrupted registers all come back through `trap_entry` exactly
when the handler returns with `t3` .. `t6` as it found them, and through `xnu_stage0_trap_vector`
exactly when it also returns with `a6` and `a7` as it found them. -/
theorem interrupt_transparent_iff (hbooter : AbiCall (env .trapHandleC) 128 [])
    (hstage0 : AbiCall (env .xnuStage0TrapDispatch) 64 []) :
    (Transparent m (run env m trapEntry)
        ↔ ∀ r ∈ unsavedTemporaries, (afterTrapHandleC env m).get r = m.get r) ∧
      (Transparent m (run env m xnuStage0TrapVector)
        ↔ ∀ r ∈ [Reg.a6, .a7] ++ unsavedTemporaries,
          (afterXnuStage0TrapDispatch env m).get r = m.get r) :=
  ⟨trapEntry_transparent_iff env m hbooter, xnuStage0TrapVector_transparent_iff env m hstage0⟩

end Transparency

/-- A machine whose registers all hold different values. -/
def numberedMachine : Machine :=
  ⟨fun r ↦ .ofNat (0x1000 * r.ctorIdx), fun _ ↦ 0x80000000, fun _ ↦ 0, 0⟩

/-- A C function that returns at once keeps to the calling convention. -/
theorem abiCall_id (size : UInt32) (writable : List UInt32) : AbiCall id size writable :=
  ⟨fun _ _ _ ↦ rfl, fun _ _ _ _ ↦ rfl⟩

/-- A C function that uses one caller-saved register as a scratch register. -/
def scratchCallee (r : Reg) (m : Machine) : Machine := m.set r 1

theorem abiCall_scratchCallee (h : r.calleeSaved = false) (size : UInt32) (writable : List UInt32) :
    AbiCall (scratchCallee r) size writable := by
  refine ⟨fun m x hx ↦ Machine.get_set_of_ne _ _ ?_, fun _ _ _ _ ↦ rfl⟩
  rintro rfl
  rw [h] at hx
  contradiction

/-- A handler that scratches `a5` goes unnoticed through both vectors. -/
theorem interrupt_transparent_scratching :
    (afterTrapHandleC (fun _ ↦ scratchCallee .a5) numberedMachine).get .a5
        ≠ numberedMachine.get .a5 ∧
      Transparent numberedMachine
        (run (fun _ ↦ scratchCallee .a5) numberedMachine trapEntry) ∧
      Transparent numberedMachine
        (run (fun _ ↦ scratchCallee .a5) numberedMachine xnuStage0TrapVector) := by
  obtain ⟨hentry, hvector⟩ := interrupt_transparent_iff (fun _ ↦ scratchCallee .a5) numberedMachine
    (abiCall_scratchCallee rfl _ _) (abiCall_scratchCallee rfl _ _)
  exact ⟨by decide, hentry.mpr (by decide), hvector.mpr (by decide)⟩

/-- A handler that scratches `t3` obeys the convention and returns `sepc` unchanged, and through
both vectors the interrupted `t3` is lost. -/
theorem interrupt_loses_t3 :
    (AbiCall (scratchCallee .t3) 128 [] ∧ AbiCall (scratchCallee .t3) 64 [] ∧
        (afterTrapHandleC (fun _ ↦ scratchCallee .t3) numberedMachine).get .a0
          = numberedMachine.csr .sepc) ∧
      ¬Transparent numberedMachine (run (fun _ ↦ scratchCallee .t3) numberedMachine trapEntry) ∧
        ¬Transparent numberedMachine
          (run (fun _ ↦ scratchCallee .t3) numberedMachine xnuStage0TrapVector) := by
  have h128 := abiCall_scratchCallee (r := .t3) rfl 128 []
  have h64 := abiCall_scratchCallee (r := .t3) rfl 64 []
  refine ⟨⟨h128, h64, by decide⟩, fun h ↦ ?_, fun h ↦ ?_⟩
  · have := (trapEntry_transparent_iff _ _ h128).mp h .t3 (by decide)
    exact absurd this (by decide)
  · have := (xnuStage0TrapVector_transparent_iff _ _ h64).mp h .t3 (by decide)
    exact absurd this (by decide)

/-! ## System calls

The user vector keeps its frame on the kernel stack, whose top waits in `sscratch` while user code
runs. The dispatcher gets a pointer to the frame and may write the saved `a0` and `sepc`. -/

/-- The words of `xnu_stage0_user_frame_t` that the dispatcher writes: `a0` and `sepc`. -/
def userFrameWritable : List UInt32 := [32, 68]

section UserVector

variable (env : TrapFunction → Machine → Machine) (m : Machine)

/-- The address of the user frame. -/
def userFrame : UInt32 := m.csr .sscratch - 96

/-- The machine that the dispatcher is called on. -/
def userEntry : Machine := run env m xnuStage0UserTrapEntry

/-- The machine that the dispatcher leaves behind. -/
def afterUserDispatch : Machine := env .xnuStage0UserTrapDispatch (userEntry env m)

/-- The stack switch and the register saves. -/
def userSaved : Machine :=
  run env (exec env (exec env m (.csrrw .sp .sscratch .sp)) (.addi .sp .sp (-96)))
    (saveRegs userFrameSaved)

theorem userSaved_sp : (userSaved env m).get .sp = userFrame m := by
  rw [userSaved, run_saveRegs_get, exec, Machine.get_set_same _ _ (by decide), exec,
    Machine.get_set_same _ _ (by decide), userFrame]
  grind

theorem userSaved_get (h : r ≠ .sp) : (userSaved env m).get r = m.get r := by
  rw [userSaved, run_saveRegs_get, exec, Machine.get_set_of_ne _ _ h, exec,
    Machine.get_set_of_ne _ _ h, Machine.get_setCsr]

theorem loadWord_userSaved (hp : p ∈ userFrameSaved) :
    loadWord (userSaved env m).mem (userFrame m + p.2) = m.get p.1 := by
  have hne : p.1 ≠ .sp := by
    revert p
    decide
  have hsp : (exec env (exec env m (.csrrw .sp .sscratch .sp)) (.addi .sp .sp (-96))).get .sp
      = userFrame m := by
    rw [← userSaved_sp env m, userSaved, run_saveRegs_get]
  rw [← hsp, userSaved, loadWord_run_saveRegs env _ _ (by decide) hp, exec,
    Machine.get_set_of_ne _ _ hne, exec, Machine.get_set_of_ne _ _ hne, Machine.get_setCsr]

theorem userSaved_csr (c : Csr) :
    (userSaved env m).csr c = if c = .sscratch then m.get .sp else m.csr c := by
  rfl

/-- The four CSR words, stored above the saved registers. -/
def userSpilled : Machine :=
  [(Csr.sscratch, 64), (.sepc, 68), (.scause, 72), (.stval, 76)].foldl
    (fun s p ↦ run env s (spillCsr .t0 p)) (userSaved env m)

theorem userEntry_eq :
    userEntry env m = (userSpilled env m).set .a0 ((userSpilled env m).get .sp) := by
  rfl

theorem userSpilled_get (h : r ≠ .t0) : (userSpilled env m).get r = (userSaved env m).get r := by
  simp only [userSpilled, List.foldl_cons, List.foldl_nil, run_spillCsr_get env _ _ h]

theorem userEntry_mem : (userEntry env m).mem
    = storeWord (storeWord (storeWord (storeWord (userSaved env m).mem
        (userFrame m + 64) (m.get .sp)) (userFrame m + 68) (m.csr .sepc))
        (userFrame m + 72) (m.csr .scause)) (userFrame m + 76) (m.csr .stval) := by
  have hsp : Reg.sp ≠ .t0 := by decide
  have hzero : Reg.t0 ≠ .zero := by decide
  rw [userEntry_eq, Machine.set_mem, userSpilled]
  simp only [List.foldl_cons, List.foldl_nil, run_spillCsr_mem env _ _ hzero hsp,
    run_spillCsr_get env _ _ hsp, userSaved_sp, userSaved_csr]
  rfl

theorem userEntry_sp : (userEntry env m).get .sp = userFrame m := by
  rw [userEntry_eq, Machine.get_set_of_ne _ _ (by decide), userSpilled_get _ _ (by decide),
    userSaved_sp]

theorem userEntry_get (hsp : r ≠ .sp) (ht0 : r ≠ .t0) (ha0 : r ≠ .a0) :
    (userEntry env m).get r = m.get r := by
  rw [userEntry_eq, Machine.get_set_of_ne _ _ ha0, userSpilled_get _ _ ht0, userSaved_get _ _ hsp]

theorem loadWord_userEntry (hp : p ∈ userFrameSaved) :
    loadWord (userEntry env m).mem (userFrame m + p.2) = m.get p.1 := by
  have hdisj : WordDisjoint 64 p.2 ∧ WordDisjoint 68 p.2 ∧ WordDisjoint 72 p.2 ∧
      WordDisjoint 76 p.2 := by
    revert p
    decide
  obtain ⟨h64, h68, h72, h76⟩ := hdisj
  rw [userEntry_mem,
    loadWord_storeWord_of_disjoint _ _ ((wordDisjoint_add_left _ _ _).mpr h76),
    loadWord_storeWord_of_disjoint _ _ ((wordDisjoint_add_left _ _ _).mpr h72),
    loadWord_storeWord_of_disjoint _ _ ((wordDisjoint_add_left _ _ _).mpr h68),
    loadWord_storeWord_of_disjoint _ _ ((wordDisjoint_add_left _ _ _).mpr h64)]
  exact loadWord_userSaved env m hp

theorem loadWord_userEntry_sp : loadWord (userEntry env m).mem (userFrame m + 64) = m.get .sp := by
  rw [userEntry_mem,
    loadWord_storeWord_of_disjoint _ _ ((wordDisjoint_add_left _ _ _).mpr (by decide)),
    loadWord_storeWord_of_disjoint _ _ ((wordDisjoint_add_left _ _ _).mpr (by decide)),
    loadWord_storeWord_of_disjoint _ _ ((wordDisjoint_add_left _ _ _).mpr (by decide)),
    loadWord_storeWord]

/-- The machine after the loads of the exit path, before the stack switch. -/
def userReloaded (c : Machine) : Machine :=
  run env (exec env (exec env (exec env c (.lw .t0 68 .sp)) (.csrw .sepc .t0)) (.lw .t0 64 .sp))
    (restoreRegs userFrameRestored)

theorem run_userVector : run env m xnuStage0UserTrapVector
    = run env (userReloaded env (afterUserDispatch env m))
        [.addi .sp .sp 96, .csrw .sscratch .sp, .mv .sp .t0, .sret] := by
  simp only [xnuStage0UserTrapVector, xnuStage0UserTrapExit, List.flatten_cons, List.flatten_nil,
    run_append, run_cons, run_nil]
  rfl

section Exit

variable (c : Machine)

theorem userReloaded_sepc : (userReloaded env c).csr .sepc = loadWord c.mem (c.get .sp + 68) := by
  rw [userReloaded, run_restoreRegs_csr, exec, exec, exec, Machine.set_csr,
    Machine.setCsr_csr_same, Machine.get_set_same _ _ (by decide)]

theorem userReloaded_t0 : (userReloaded env c).get .t0 = loadWord c.mem (c.get .sp + 64) := by
  rw [userReloaded, run_restoreRegs_get_of_notMem _ _ _ (by decide), exec,
    Machine.get_set_same _ _ (by decide), exec, exec, Machine.get_setCsr,
    Machine.get_set_of_ne _ _ (by decide : Reg.sp ≠ .t0), Machine.setCsr_mem, Machine.set_mem]

theorem userReloaded_get_of_notMem (h : r ∉ userFrameRestored.map Prod.fst) (ht0 : r ≠ .t0) :
    (userReloaded env c).get r = c.get r := by
  rw [userReloaded, run_restoreRegs_get_of_notMem _ _ _ h, exec, Machine.get_set_of_ne _ _ ht0,
    exec, exec, Machine.get_setCsr, Machine.get_set_of_ne _ _ ht0]

theorem userReloaded_get (hp : p ∈ userFrameRestored) :
    (userReloaded env c).get p.1 = loadWord c.mem (c.get .sp + p.2) := by
  rw [userReloaded, run_restoreRegs_get env _ _ (by decide) (by decide) (by decide) hp, exec,
    Machine.set_mem, exec, exec, Machine.setCsr_mem, Machine.set_mem,
    Machine.get_set_of_ne _ _ (by decide), Machine.get_setCsr,
    Machine.get_set_of_ne _ _ (by decide)]

/-- The stack switch at the end: `sp` becomes what `t0` carries, nothing else moves. -/
theorem userSwitch_get (r : Reg) :
    (run env c [.addi .sp .sp 96, .csrw .sscratch .sp, .mv .sp .t0, .sret]).get r
      = if r = .sp then c.get .t0 else c.get r := by
  have hsret : (run env c [.addi .sp .sp 96, .csrw .sscratch .sp, .mv .sp .t0, .sret]).get r
      = (((c.set .sp (c.get .sp + 96)).setCsr .sscratch _).set .sp
          (((c.set .sp (c.get .sp + 96)).setCsr .sscratch _).get .t0)).get r := rfl
  rw [hsret]
  by_cases h : r = .sp
  · rw [if_pos h, h, Machine.get_set_same _ _ (by decide), Machine.get_setCsr,
      Machine.get_set_of_ne _ _ (by decide)]
  · rw [if_neg h, Machine.get_set_of_ne _ _ h, Machine.get_setCsr, Machine.get_set_of_ne _ _ h]

end Exit

variable {env m}

theorem userVector_get (h : AbiCall (env .xnuStage0UserTrapDispatch) 96 userFrameWritable)
    (ha0 : r ≠ .a0) :
    (run env m xnuStage0UserTrapVector).get r
      = if r = .t0 then m.get .sp
        else if r = .zero ∨ r ∈ unsavedTemporaries then (afterUserDispatch env m).get r
        else m.get r := by
  set e := userEntry env m with he
  set c := afterUserDispatch env m with hc
  have hesp : e.get .sp = userFrame m := userEntry_sp env m
  have hcsp : c.get .sp = userFrame m := by rw [hc, afterUserDispatch, h.saved _ _ rfl, ← he, hesp]
  have hslot : ∀ off : UInt32, off ≤ 92 → WordDisjoint 32 off ∧ WordDisjoint 68 off →
      loadWord c.mem (userFrame m + off) = loadWord e.mem (userFrame m + off) := by
    intro off hoff hapart
    have hframe : off ≤ 96 - 4 := hoff
    have hw : ∀ w ∈ userFrameWritable, WordDisjoint w off := by
      intro w hw
      rcases List.mem_pair.mp hw with rfl | rfl
      · exact hapart.1
      · exact hapart.2
    have hword := h.loadWord_frame e hframe (by decide) hw
    rwa [hesp] at hword
  have ht0 : (userReloaded env c).get .t0 = m.get .sp := by
    rw [userReloaded_t0, hcsp, hslot 64 (by decide) (by decide)]
    exact loadWord_userEntry_sp env m
  rw [run_userVector, ← hc, userSwitch_get]
  by_cases hsp : r = .sp
  · subst hsp
    rw [if_pos rfl, if_neg (by decide), if_neg (by decide), ht0]
  rw [if_neg hsp]
  by_cases hrt0 : r = .t0
  · rw [if_pos hrt0, hrt0, ht0]
  rw [if_neg hrt0]
  by_cases hrestored : r ∈ userFrameRestored.map Prod.fst
  · -- stored on entry, out of the dispatcher's reach, loaded on exit
    obtain ⟨p, hp, rfl⟩ := List.mem_map.mp hrestored
    have hmem : p ∈ userFrameSaved ∧ p.2 ≤ 92 ∧ ¬(p.1 = .zero ∨ p.1 ∈ unsavedTemporaries) := by
      revert p
      decide
    have hapart : WordDisjoint 32 p.2 ∧ WordDisjoint 68 p.2 := by
      revert p
      decide
    rw [userReloaded_get _ _ hp, hcsp, hslot p.2 hmem.2.1 hapart, if_neg hmem.2.2]
    exact loadWord_userEntry env m hmem.1
  · rw [userReloaded_get_of_notMem _ _ hrestored hrt0]
    by_cases hlost : r = .zero ∨ r ∈ unsavedTemporaries
    · rw [if_pos hlost]
    · have hsaved : r.calleeSaved = true := by
        revert hlost hrestored hrt0 ha0
        cases r <;> decide
      rw [if_neg hlost, hc, afterUserDispatch, h.saved _ _ hsaved]
      exact userEntry_get env m hsp hrt0 ha0

/-- The trap return goes where the dispatcher left the frame's `sepc`. -/
theorem userVector_pc (h : AbiCall (env .xnuStage0UserTrapDispatch) 96 userFrameWritable) :
    (run env m xnuStage0UserTrapVector).pc
      = loadWord (afterUserDispatch env m).mem (userFrame m + 68) := by
  have hcsp : (afterUserDispatch env m).get .sp = userFrame m := by
    rw [afterUserDispatch, h.saved _ _ rfl, userEntry_sp]
  rw [run_userVector, ← hcsp, ← userReloaded_sepc env]
  rfl

/-- The kernel stack top is back in `sscratch` for the next trap. -/
theorem userVector_sscratch (h : AbiCall (env .xnuStage0UserTrapDispatch) 96 userFrameWritable) :
    (run env m xnuStage0UserTrapVector).csr .sscratch = m.csr .sscratch := by
  have hsp : (userReloaded env (afterUserDispatch env m)).get .sp = userFrame m := by
    rw [userReloaded_get_of_notMem _ _ (by decide) (by decide), afterUserDispatch,
      h.saved _ _ rfl, userEntry_sp]
  have hout : (run env m xnuStage0UserTrapVector).csr .sscratch
      = (userReloaded env (afterUserDispatch env m)).get .sp + 96 := by
    rfl
  rw [hout, hsp, userFrame]
  grind

end UserVector

/-- The user code resumes as after a system call: every register but `a0` as it was, at the `pc`
that the dispatcher left in the frame, with the kernel stack top in `sscratch`. -/
def SyscallPreserves (env : TrapFunction → Machine → Machine) (m : Machine) : Prop :=
  (∀ r, r ≠ .a0 → (run env m xnuStage0UserTrapVector).get r = m.get r) ∧
    (run env m xnuStage0UserTrapVector).pc
      = loadWord (afterUserDispatch env m).mem (userFrame m + 68) ∧
    (run env m xnuStage0UserTrapVector).csr .sscratch = m.csr .sscratch

/-- **System calls and user registers.** The user registers survive a system call exactly when the
user's `t0` was equal to the user's stack pointer and the dispatcher returned with `t3` .. `t6` as
the user had left them. -/
theorem syscallPreserves_iff (env : TrapFunction → Machine → Machine)
    (h : AbiCall (env .xnuStage0UserTrapDispatch) 96 userFrameWritable) (m : Machine) :
    SyscallPreserves env m
      ↔ m.get .t0 = m.get .sp ∧
        ∀ r ∈ unsavedTemporaries, (afterUserDispatch env m).get r = m.get r := by
  constructor
  · rintro ⟨hregs, -, -⟩
    refine ⟨?_, fun r hr ↦ ?_⟩
    · rw [← hregs .t0 (by decide), userVector_get h (by decide), if_pos rfl]
    · have hne : r ≠ .a0 ∧ r ≠ .t0 := by
        revert r
        decide
      rw [← hregs r hne.1, userVector_get h hne.1, if_neg hne.2, if_pos (Or.inr hr)]
  · rintro ⟨ht0, hlost⟩
    refine ⟨fun r hr ↦ ?_, userVector_pc h, userVector_sscratch h⟩
    rw [userVector_get h hr]
    by_cases hrt0 : r = .t0
    · rw [if_pos hrt0, hrt0, ht0]
    rw [if_neg hrt0]
    by_cases hmem : r = .zero ∨ r ∈ unsavedTemporaries
    · rw [if_pos hmem]
      rcases hmem with rfl | hmem
      · rfl
      · exact hlost r hmem
    · rw [if_neg hmem]

/-- With the stack pointer in `t0`, a dispatcher that scratches `a5` goes unnoticed. -/
theorem syscallPreserves_scratching :
    SyscallPreserves (fun _ ↦ scratchCallee .a5)
      (numberedMachine.set .t0 (numberedMachine.get .sp)) :=
  (syscallPreserves_iff _ (abiCall_scratchCallee rfl _ _) _).mpr (by decide)

/-- A dispatcher that returns at once hands the stack pointer back in `t0`. -/
theorem syscall_loses_t0 :
    AbiCall id 96 userFrameWritable ∧ ¬SyscallPreserves (fun _ ↦ id) numberedMachine := by
  refine ⟨abiCall_id _ _, fun h ↦ ?_⟩
  have ht0 := h.1 .t0 (by decide)
  exact absurd ht0 (by decide)

end CaribeOS
