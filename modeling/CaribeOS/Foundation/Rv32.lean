import CaribeOS.Foundation.ByteMemory

/-!
# Straight-line RV32 code around a call

A register machine for the RV32 fragment that trap vectors are made of: stack adjustment, word loads
and stores, CSR moves, one call and the trap return. The callee is a function on machines, of which
only the calling convention is known.

Saving and restoring registers are blocks of one shape, `sw r, off(sp)` and `lw r, off(sp)`. Their
effect is stated once for an arbitrary list of slots, by induction on the list, so that a vector is
verified from its slot table and not instruction by instruction.
-/

namespace Rv32

open ByteMemory

/-- The integer registers `x0` .. `x31`, under their ABI names. -/
inductive Reg
  | zero | ra | sp | gp | tp | t0 | t1 | t2 | s0 | s1
  | a0 | a1 | a2 | a3 | a4 | a5 | a6 | a7
  | s2 | s3 | s4 | s5 | s6 | s7 | s8 | s9 | s10 | s11
  | t3 | t4 | t5 | t6
deriving DecidableEq, Repr

/-- The supervisor CSRs a trap vector moves. -/
inductive Csr
  | sscratch | sepc | scause | stval
deriving DecidableEq, Repr

/-- The registers an ILP32 callee leaves as it found them. -/
def Reg.calleeSaved : Reg → Bool
  | .sp | .gp | .tp => true
  | .s0 | .s1 | .s2 | .s3 | .s4 | .s5 | .s6 | .s7 | .s8 | .s9 | .s10 | .s11 => true
  | _ => false

/-- The machine state. Straight-line code is run as a list, so `pc` only records where a trap
return goes. -/
structure Machine where
  /-- The register file; `x0` is read through `Machine.get`. -/
  reg : Reg → UInt32
  csr : Csr → UInt32
  mem : Mem
  pc : UInt32

variable {r : Reg} {off : UInt32} {p : Reg × UInt32}

namespace Machine

/-- Read a register; `x0` is hard-wired. -/
def get (m : Machine) (r : Reg) : UInt32 := if r = .zero then 0 else m.reg r

/-- Write a register. -/
def set (m : Machine) (r : Reg) (v : UInt32) : Machine :=
  { m with reg := fun x ↦ if x = r then v else m.reg x }

/-- Write a CSR. -/
def setCsr (m : Machine) (c : Csr) (v : UInt32) : Machine :=
  { m with csr := fun x ↦ if x = c then v else m.csr x }

variable (m : Machine)

@[simp] theorem get_set_same (v : UInt32) (h : r ≠ .zero) : (m.set r v).get r = v := by
  simp [get, set, h]

theorem get_set_of_ne {x : Reg} (v : UInt32) (h : x ≠ r) : (m.set r v).get x = m.get x := by
  simp [get, set, h]

@[simp] theorem get_setCsr (c : Csr) (v : UInt32) (r : Reg) : (m.setCsr c v).get r = m.get r := rfl

@[simp] theorem set_mem (r : Reg) (v : UInt32) : (m.set r v).mem = m.mem := rfl

@[simp] theorem set_csr (r : Reg) (v : UInt32) : (m.set r v).csr = m.csr := rfl

@[simp] theorem setCsr_mem (c : Csr) (v : UInt32) : (m.setCsr c v).mem = m.mem := rfl

@[simp] theorem setCsr_csr_same (c : Csr) (v : UInt32) : (m.setCsr c v).csr c = v := by
  simp [setCsr]

end Machine

/-- Instructions; `σ` names the functions that can be called. -/
inductive Instr (σ : Type)
  | addi (rd rs : Reg) (imm : UInt32)
  | mv (rd rs : Reg)
  | lw (rd : Reg) (off : UInt32) (base : Reg)
  | sw (rs : Reg) (off : UInt32) (base : Reg)
  | csrr (rd : Reg) (c : Csr)
  | csrw (c : Csr) (rs : Reg)
  | csrrw (rd : Reg) (c : Csr) (rs : Reg)
  | call (f : σ)
  | sret

variable {σ : Type} (env : σ → Machine → Machine)

/-- One instruction. The link register belongs to the registers a callee may change, so the write of
the return address is left to the callee's function. -/
def exec (m : Machine) : Instr σ → Machine
  | .addi rd rs imm => m.set rd (m.get rs + imm)
  | .mv rd rs => m.set rd (m.get rs)
  | .lw rd off base => m.set rd (loadWord m.mem (m.get base + off))
  | .sw rs off base => { m with mem := storeWord m.mem (m.get base + off) (m.get rs) }
  | .csrr rd c => m.set rd (m.csr c)
  | .csrw c rs => m.setCsr c (m.get rs)
  | .csrrw rd c rs => (m.setCsr c (m.get rs)).set rd (m.csr c)
  | .call f => env f m
  | .sret => { m with pc := m.csr .sepc }

/-- Run a list of instructions from left to right. -/
def run (m : Machine) (code : List (Instr σ)) : Machine := code.foldl (exec env) m

@[simp] theorem run_nil (m : Machine) : run env m [] = m := rfl

@[simp] theorem run_cons (m : Machine) (i : Instr σ) (code : List (Instr σ)) :
    run env m (i :: code) = run env (exec env m i) code := rfl

theorem run_append (m : Machine) (code code' : List (Instr σ)) :
    run env m (code ++ code') = run env (run env m code) code' := by
  rw [run, run, run, List.foldl_append]

/-! ## Saving and restoring -/

/-- `sw r, off(sp)` for every slot. -/
def saveRegs (slots : List (Reg × UInt32)) : List (Instr σ) := slots.map fun p ↦ .sw p.1 p.2 .sp

/-- `lw r, off(sp)` for every slot. -/
def restoreRegs (slots : List (Reg × UInt32)) : List (Instr σ) := slots.map fun p ↦ .lw p.1 p.2 .sp

section Save

variable (slots : List (Reg × UInt32)) (m : Machine)

@[simp] theorem run_saveRegs_reg : (run env m (saveRegs slots)).reg = m.reg := by
  induction slots generalizing m with
  | nil => rfl
  | cons p slots ih => exact ih _

@[simp] theorem run_saveRegs_get (r : Reg) : (run env m (saveRegs slots)).get r = m.get r := by
  rw [Machine.get, Machine.get, run_saveRegs_reg]

/-- A word apart from every slot survives the saving. -/
theorem loadWord_run_saveRegs_of_disjoint (h : ∀ p ∈ slots, WordDisjoint p.2 off) :
    loadWord (run env m (saveRegs slots)).mem (m.get .sp + off)
      = loadWord m.mem (m.get .sp + off) := by
  induction slots generalizing m with
  | nil => rfl
  | cons p slots ih =>
    have hp : WordDisjoint p.2 off := h p List.mem_cons_self
    have hrest : ∀ q ∈ slots, WordDisjoint q.2 off := fun q hq ↦ h q (List.mem_cons_of_mem _ hq)
    have hstep := ih { m with mem := storeWord m.mem (m.get .sp + p.2) (m.get p.1) } hrest
    refine hstep.trans ?_
    exact loadWord_storeWord_of_disjoint _ _ ((wordDisjoint_add_left _ _ _).mpr hp)

/-- Every slot holds its register after the saving, provided the slots do not overlap. -/
theorem loadWord_run_saveRegs (hdisj : slots.Pairwise fun p q ↦ WordDisjoint p.2 q.2)
    (hp : p ∈ slots) : loadWord (run env m (saveRegs slots)).mem (m.get .sp + p.2) = m.get p.1 := by
  induction slots generalizing m with
  | nil => exact absurd hp List.not_mem_nil
  | cons q slots ih =>
    rw [List.pairwise_cons] at hdisj
    set m' : Machine := { m with mem := storeWord m.mem (m.get .sp + q.2) (m.get q.1) } with hm'
    rcases List.mem_cons.mp hp with rfl | hp
    · have hlater : ∀ x ∈ slots, WordDisjoint x.2 p.2 := fun x hx ↦ (hdisj.1 x hx).symm
      have hframe := loadWord_run_saveRegs_of_disjoint env slots m' hlater
      refine Eq.trans hframe ?_
      exact loadWord_storeWord _ _ _
    · exact ih m' hdisj.2 hp

end Save

section Restore

variable (slots : List (Reg × UInt32)) (m : Machine)

@[simp] theorem run_restoreRegs_csr : (run env m (restoreRegs slots)).csr = m.csr := by
  induction slots generalizing m with
  | nil => rfl
  | cons p slots ih => exact ih _

theorem run_restoreRegs_get_of_notMem (h : r ∉ slots.map Prod.fst) :
    (run env m (restoreRegs slots)).get r = m.get r := by
  induction slots generalizing m with
  | nil => rfl
  | cons p slots ih =>
    rw [List.map_cons, List.mem_cons, not_or] at h
    refine (ih _ h.2).trans ?_
    exact Machine.get_set_of_ne _ _ h.1

/-- Every register with a slot gets the slot's word. The stack pointer has no slot, so all the
loads use one base address. -/
theorem run_restoreRegs_get (hsp : .sp ∉ slots.map Prod.fst) (hzero : .zero ∉ slots.map Prod.fst)
    (hnodup : (slots.map Prod.fst).Nodup) (hp : p ∈ slots) :
    (run env m (restoreRegs slots)).get p.1 = loadWord m.mem (m.get .sp + p.2) := by
  induction slots generalizing m with
  | nil => exact absurd hp List.not_mem_nil
  | cons q slots ih =>
    rw [List.map_cons, List.mem_cons, not_or] at hsp hzero
    rw [List.map_cons, List.nodup_cons] at hnodup
    set m' : Machine := m.set q.1 (loadWord m.mem (m.get .sp + q.2)) with hm'
    rcases List.mem_cons.mp hp with rfl | hp
    · refine Eq.trans (run_restoreRegs_get_of_notMem env slots m' hnodup.1) ?_
      exact Machine.get_set_same _ _ (Ne.symm hzero.1)
    · refine Eq.trans (ih m' hsp.2 hzero.2 hnodup.2 hp) ?_
      rw [hm', Machine.get_set_of_ne _ _ hsp.1, Machine.set_mem]

end Restore

/-! ## Spilling a CSR -/

/-- `csrr tmp, c` and `sw tmp, off(sp)`. -/
def spillCsr (tmp : Reg) (p : Csr × UInt32) : List (Instr σ) := [.csrr tmp p.1, .sw tmp p.2 .sp]

section Spill

variable {tmp : Reg} (p : Csr × UInt32) (m : Machine)

theorem run_spillCsr_get (h : r ≠ tmp) : (run env m (spillCsr tmp p)).get r = m.get r :=
  Machine.get_set_of_ne _ _ h

theorem run_spillCsr_mem (hzero : tmp ≠ .zero) (hsp : .sp ≠ tmp) :
    (run env m (spillCsr tmp p)).mem = storeWord m.mem (m.get .sp + p.2) (m.csr p.1) := by
  rw [spillCsr, run_cons, run_cons, run_nil, exec, exec]
  simp only [Machine.get_set_same _ _ hzero, Machine.get_set_of_ne _ _ hsp, Machine.set_mem]

end Spill

/-! ## The calling convention -/

/-- What a caller knows of an ILP32 callee that was called on a frame of `size` bytes at `sp`: the
callee-saved registers come back, and so does the frame, except for the words of it that the callee
was handed to write. Every other register and every other byte of memory may change. -/
structure AbiCall (f : Machine → Machine) (size : UInt32) (writable : List UInt32) : Prop where
  saved : ∀ m r, r.calleeSaved = true → (f m).get r = m.get r
  frame : ∀ m k, k < size → (∀ w ∈ writable, 4 ≤ k - w) →
    (f m).mem (m.get .sp + k) = m.mem (m.get .sp + k)

theorem AbiCall.loadWord_frame {f : Machine → Machine} {size : UInt32} {writable : List UInt32}
    (h : AbiCall f size writable) (m : Machine) (hoff : off ≤ size - 4) (hsize : 4 ≤ size)
    (hw : ∀ w ∈ writable, WordDisjoint w off) :
    loadWord (f m).mem (m.get .sp + off) = loadWord m.mem (m.get .sp + off) := by
  refine loadWord_congr fun k hk ↦ ?_
  have hassoc : m.get .sp + off + k = m.get .sp + (off + k) := by grind
  rw [hassoc]
  refine h.frame m (off + k) (by grind) fun w hmem ↦ ?_
  obtain ⟨h1, h2⟩ := hw w hmem
  grind

end Rv32
