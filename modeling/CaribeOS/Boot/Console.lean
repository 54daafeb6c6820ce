import CaribeOS.Foundation.ByteProgram

/-!
# The memory dump of the booter's console

`mem rd A L` prints `L` bytes from the address `A` on (`cmd_mem_rd` in `console.c`). The firmware and
the timer are not to be read from supervisor mode, so the command looks through the range first; and
it does not read past the registers of the UART.

The range is kept in two ways. The check runs from the address to an end that is a 32-bit sum, the
dump counts the bytes. Where the sum wraps the check sees nothing, and what is then read is known
from the numbers alone (`mem_rd_iff`).
-/

namespace CaribeOS.Console

open ByteMemory ByteProgram Prog

/-! ## What is printed -/

def uartPuts (s : String) : Prog Unit := printAll (cString s)

/-- The digit for a number below 16; `ten` is the letter for ten. -/
def hexDigit (ten : UInt8) (n : UInt8) : UInt8 := if n < 10 then 48 + n else ten + (n - 10)

def uartPuthex32 (v : UInt32) : Prog Unit :=
  printAll (cString "0x" ++ ([28, 24, 20, 16, 12, 8, 4, 0] : List UInt32).map fun i ↦
    hexDigit 97 ((v >>> i) &&& 15).toUInt8)

def uartPutdec (v : UInt32) : Prog Unit := printAll (cString (toString v.toNat))

def putHex8 (b : UInt8) : Prog Unit := printAll [hexDigit 65 (b >>> 4), hexDigit 65 (b &&& 15)]

/-! ## The command as it stands in the source -/

def isForbiddenAddr (a : UInt32) : Prop :=
  0x80000000 ≤ a ∧ a < 0x80060000 ∨ 0x02000000 ≤ a ∧ a < 0x02010000
  deriving Decidable

/-- The base that was set, or that of the machine. -/
def uartBaseEffective (base : UInt32) : UInt32 := if base ≠ 0 then base else 0x10000000

/-- The loop of the check: whether it meets a forbidden address. -/
def meetsForbidden (stop : UInt32) : ℕ → UInt32 → Option Bool
  | 0, _ => none
  | fuel + 1, a =>
    if a < stop then
      if isForbiddenAddr a then some true else meetsForbidden stop fuel (a + 1)
    else some false

/-- The number of bytes when those behind the registers of the UART are taken off, and whether this
is to be told. -/
def clampToUart (addr lenb ub : UInt32) : UInt32 × Bool :=
  if addr < ub + 8 ∧ ub < addr + lenb then
    if ub ≤ addr then if ub + 8 - addr < lenb then (ub + 8 - addr, true) else (lenb, false)
    else (ub - addr, decide (ub - addr ≠ 0))
  else (lenb, false)

/-- The loop of the dump. -/
def dumpLoop (addr lenb : UInt32) : ℕ → UInt32 → Prog (Option Unit)
  | 0, _ => pure none
  | fuel + 1, i =>
    if i < lenb then do
      when (i &&& 15 = 0) (do uartPuthex32 (addr + i); uartPuts ": ")
      .load (addr + i) fun c ↦ do
        putHex8 c
        uartPuts " "
        when (i &&& 15 = 15) (uartPuts "\r\n")
        dumpLoop addr lenb fuel (i + 1)
    else pure (some ())

/-- The part behind the check. -/
def dump (addr lenb ub : UInt32) (fuel : ℕ) : Prog (Option Unit) := do
  when ((clampToUart addr lenb ub).2 = true) (uartPuts "(recortado por zona UART)\r\n")
  if (clampToUart addr lenb ub).1 = 0 then
    uartPuts "nada que leer (recortado)\r\n"
    pure (some ())
  else
    uartPuts "dump "
    uartPuthex32 addr
    uartPuts " +"
    uartPutdec (clampToUart addr lenb ub).1
    uartPuts ":\r\n"
    let done ← dumpLoop addr (clampToUart addr lenb ub).1 fuel 0
    when (done.isSome ∧ (clampToUart addr lenb ub).1 &&& 15 ≠ 0) (uartPuts "\r\n")
    pure done

/-- `cmd_mem_rd`, with at most `fuel` rounds of each loop. -/
def cmdMemRd (addr lenb base : UInt32) (fuel : ℕ) : Prog (Option Unit) :=
  if lenb = 0 then pure (some ())
  else
    match meetsForbidden (addr + lenb) fuel addr with
    | none => pure none
    | some true => do
      uartPuts "forbidden: M-mode/firmware/CLINT desde S-mode\r\n"
      pure (some ())
    | some false => dump addr lenb (uartBaseEffective base) fuel

/-! ## The loops -/

theorem toNat_succ_of_lt {a stop : UInt32} (h : a < stop) : (a + 1).toNat = a.toNat + 1 := by
  have hstop := stop.toNat_lt
  have hlt := UInt32.lt_iff_toNat_lt.mp h
  exact Nat.mod_eq_of_lt (by change a.toNat + 1 < _; omega)

/-- The check ends: there are only so many addresses up to the end. -/
theorem meetsForbidden_isSome (stop : UInt32) :
    ∀ (fuel : ℕ) (a : UInt32), stop.toNat - a.toNat < fuel → (meetsForbidden stop fuel a).isSome := by
  intro fuel
  induction fuel with
  | zero =>
    intro a hfuel
    exact absurd hfuel (Nat.not_lt_zero _)
  | succ fuel ih =>
    intro a hfuel
    rw [meetsForbidden]
    split_ifs with hlt hforbidden
    · rfl
    · apply ih
      rw [toNat_succ_of_lt hlt]
      have hltNat := UInt32.lt_iff_toNat_lt.mp hlt
      omega
    · rfl

theorem meetsForbidden_eq {stop : UInt32} {r : Bool} :
    ∀ {fuel : ℕ} {a : UInt32}, meetsForbidden stop fuel a = some r →
      (r = false ↔ ∀ x, a ≤ x → x < stop → ¬isForbiddenAddr x) := by
  intro fuel
  induction fuel with
  | zero =>
    intro a h
    exact absurd h (Option.some_ne_none r).symm
  | succ fuel ih =>
    intro a h
    rw [meetsForbidden] at h
    split_ifs at h with hlt hforbidden
    · rw [← Option.some_inj.mp h]
      exact ⟨fun h ↦ absurd h.symm Bool.false_ne_true,
        fun hnone ↦ absurd hforbidden (hnone a (UInt32.le_refl a) hlt)⟩
    · have hsucc := toNat_succ_of_lt hlt
      rw [ih h]
      constructor
      · intro hnone x hax hx
        by_cases heq : x = a
        · rw [heq]
          exact hforbidden
        · refine hnone x ?_ hx
          have hne := mt UInt32.toNat_inj.mp heq
          rw [UInt32.le_iff_toNat_le] at hax ⊢
          omega
      · intro hnone x hax hx
        refine hnone x ?_ hx
        rw [UInt32.le_iff_toNat_le] at hax ⊢
        omega
    · rw [← Option.some_inj.mp h]
      refine ⟨fun _ x hax hx ↦ absurd (UInt32.lt_of_le_of_lt hax hx) hlt, fun _ ↦ rfl⟩

@[simp] theorem loads_printAll (cs : List UInt8) (m : Mem) : (printAll cs).loads m = [] := by
  induction cs with
  | nil => rfl
  | cons c cs ih => exact ih

@[simp] theorem loads_when (c : Prop) [Decidable c] (p : Prog Unit) (m : Mem) :
    (when c p).loads m = if c then p.loads m else [] := apply_ite (Prog.loads · m) c p (pure ())

@[simp] theorem loads_uartPuts (s : String) (m : Mem) : (uartPuts s).loads m = [] :=
  loads_printAll _ m

@[simp] theorem loads_uartPuthex32 (v : UInt32) (m : Mem) : (uartPuthex32 v).loads m = [] :=
  loads_printAll _ m

@[simp] theorem loads_uartPutdec (v : UInt32) (m : Mem) : (uartPutdec v).loads m = [] :=
  loads_printAll _ m

@[simp] theorem loads_putHex8 (b : UInt8) (m : Mem) : (putHex8 b).loads m = [] := loads_printAll _ m

theorem dumpLoop_val (addr lenb : UInt32) :
    ∀ (fuel : ℕ) (i : UInt32) (m : Mem), lenb.toNat - i.toNat < fuel →
      (dumpLoop addr lenb fuel i).val m = some () := by
  intro fuel
  induction fuel with
  | zero =>
    intro i m hfuel
    exact absurd hfuel (Nat.not_lt_zero _)
  | succ fuel ih =>
    intro i m hfuel
    rw [dumpLoop]
    by_cases hlt : i < lenb
    · have hltNat := UInt32.lt_iff_toNat_lt.mp hlt
      rw [if_pos hlt, val_bind, val, val_bind, val_bind, val_bind]
      apply ih
      rw [toNat_succ_of_lt hlt]
      omega
    · rw [if_neg hlt]
      rfl

variable {addr lenb : UInt32}

theorem loads_dumpLoop_succ {i : UInt32} (hlt : i < lenb) (fuel : ℕ) (m : Mem) :
    ∃ m', (dumpLoop addr lenb (fuel + 1) i).loads m
      = (addr + i) :: (dumpLoop addr lenb fuel (i + 1)).loads m' := by
  constructor
  rw [dumpLoop, if_pos hlt, loads_bind, loads_when, loads_bind, loads_uartPuthex32, loads_uartPuts,
    List.append_nil, ite_self, List.nil_append, loads, loads_bind, loads_putHex8, List.nil_append,
    loads_bind, loads_uartPuts, List.nil_append, loads_bind, loads_when, loads_uartPuts, ite_self,
    List.nil_append]

theorem exists_of_mem_loads_dumpLoop {x : UInt32} :
    ∀ (fuel : ℕ) (i : UInt32) (m : Mem), x ∈ (dumpLoop addr lenb fuel i).loads m →
      ∃ k, k < lenb ∧ x = addr + k := by
  intro fuel
  induction fuel with
  | zero =>
    intro i m hx
    exact absurd hx List.not_mem_nil
  | succ fuel ih =>
    intro i m hx
    by_cases hlt : i < lenb
    · obtain ⟨m', hloads⟩ := @loads_dumpLoop_succ addr _ _ hlt fuel m
      rw [hloads, List.mem_cons] at hx
      rcases hx with rfl | hx
      · exact ⟨i, hlt, rfl⟩
      · exact ih (i + 1) m' hx
    · rw [dumpLoop, if_neg hlt] at hx
      exact absurd hx List.not_mem_nil

theorem mem_loads_dumpLoop {k : UInt32} (hk : k < lenb) :
    ∀ (fuel : ℕ) (i : UInt32) (m : Mem), i ≤ k → lenb.toNat - i.toNat < fuel →
      addr + k ∈ (dumpLoop addr lenb fuel i).loads m := by
  intro fuel
  induction fuel with
  | zero =>
    intro i m _ hfuel
    exact absurd hfuel (Nat.not_lt_zero _)
  | succ fuel ih =>
    intro i m hik hfuel
    have hlt : i < lenb := UInt32.lt_of_le_of_lt hik hk
    have hsucc := toNat_succ_of_lt hlt
    have hltNat := UInt32.lt_iff_toNat_lt.mp hlt
    obtain ⟨m', hloads⟩ := @loads_dumpLoop_succ addr _ _ hlt fuel m
    rw [hloads, List.mem_cons]
    by_cases heq : k = i
    · exact .inl (by rw [heq])
    · refine .inr (ih (i + 1) m' ?_ (by omega))
      have hne := mt UInt32.toNat_inj.mp heq
      rw [UInt32.le_iff_toNat_le] at hik ⊢
      omega

/-! ## What the command reads -/

/-- A byte that the command reads, in some memory. -/
def Reads (addr lenb base x : UInt32) : Prop := ∃ fuel m, x ∈ (cmdMemRd addr lenb base fuel).loads m

theorem loads_dump (addr lenb ub : UInt32) (fuel : ℕ) (m : Mem) :
    ∃ m', (dump addr lenb ub fuel).loads m
      = if (clampToUart addr lenb ub).1 = 0 then []
        else (dumpLoop addr (clampToUart addr lenb ub).1 fuel 0).loads m' := by
  constructor
  rw [dump, loads_bind, loads_when, loads_uartPuts, ite_self, List.nil_append, loads_ite]
  refine if_congr Iff.rfl ?_ ?_
  · rw [loads_bind, loads_uartPuts, loads_pure, List.append_nil]
  · rw [loads_bind, loads_uartPuts, List.nil_append, loads_bind, loads_uartPuthex32,
      List.nil_append, loads_bind, loads_uartPuts, List.nil_append, loads_bind, loads_uartPutdec,
      List.nil_append, loads_bind, loads_uartPuts, List.nil_append, loads_bind, loads_bind,
      loads_when, loads_uartPuts, ite_self, List.nil_append, loads_pure, List.append_nil]

theorem cmdMemRd_val (addr lenb base : UInt32) (m : Mem) {fuel : ℕ} (hfuel : 2 ^ 32 ≤ fuel) :
    (cmdMemRd addr lenb base fuel).val m = some () := by
  have henough : ∀ v w : UInt32, v.toNat - w.toNat < fuel := by
    intro v w
    have := v.toNat_lt
    omega
  rw [cmdMemRd]
  split_ifs with hzero
  · rfl
  · have hsome := meetsForbidden_isSome (addr + lenb) fuel addr (henough _ _)
    rcases hcheck : meetsForbidden (addr + lenb) fuel addr with - | - | -
    · rw [hcheck] at hsome
      exact absurd hsome Bool.false_ne_true
    · dsimp only
      rw [dump, val_bind, val_ite]
      split_ifs with hnone
      · rw [val_bind, val_pure]
      · rw [val_bind, val_bind, val_bind, val_bind, val_bind, val_bind, val_bind, val_pure]
        exact dumpLoop_val _ _ _ _ _ (henough _ _)
    · rfl

/-- What the command reads: if the check meets nothing, the bytes that the clamp leaves. -/
theorem reads_iff (addr lenb base x : UInt32) :
    Reads addr lenb base x ↔
      lenb ≠ 0 ∧ (∀ a, addr ≤ a → a < addr + lenb → ¬isForbiddenAddr a) ∧
        ∃ k, k < (clampToUart addr lenb (uartBaseEffective base)).1 ∧ x = addr + k := by
  constructor
  · rintro ⟨fuel, m, hx⟩
    rw [cmdMemRd] at hx
    split_ifs at hx with hzero
    · exact absurd hx List.not_mem_nil
    · rcases hcheck : meetsForbidden (addr + lenb) fuel addr with - | - | -
      · rw [hcheck] at hx
        exact absurd hx List.not_mem_nil
      · rw [hcheck] at hx
        obtain ⟨m', hloads⟩ := loads_dump addr lenb (uartBaseEffective base) fuel m
        rw [hloads] at hx
        split_ifs at hx with hnone
        · exact absurd hx List.not_mem_nil
        · exact ⟨hzero, (meetsForbidden_eq hcheck).mp rfl,
            exists_of_mem_loads_dumpLoop fuel 0 m' hx⟩
      · rw [hcheck] at hx
        rw [loads_bind, loads_uartPuts, loads_pure] at hx
        exact absurd hx List.not_mem_nil
  · rintro ⟨hzero, hcheck, k, hk, rfl⟩
    have henough : ∀ v w : UInt32, v.toNat - w.toNat < 2 ^ 32 := fun v w ↦
      (Nat.sub_le _ _).trans_lt v.toNat_lt
    refine ⟨2 ^ 32, fun _ ↦ 0, ?_⟩
    have hsome := meetsForbidden_isSome (addr + lenb) (2 ^ 32) addr (henough _ _)
    obtain ⟨r, hr⟩ := Option.isSome_iff_exists.mp hsome
    have hfalse : r = false := (meetsForbidden_eq hr).mpr hcheck
    obtain ⟨m', hloads⟩ := loads_dump addr lenb (uartBaseEffective base) (2 ^ 32) fun _ ↦ 0
    have hne : ¬(clampToUart addr lenb (uartBaseEffective base)).1 = 0 := by
      intro hnone
      rw [hnone] at hk
      exact UInt32.not_lt_zero hk
    rw [cmdMemRd, if_neg hzero, hr, hfalse]
    rw [hloads, if_neg hne]
    exact mem_loads_dumpLoop hk _ 0 m' UInt32.zero_le (henough _ _)

/-! ## The numbers -/

theorem isForbiddenAddr_iff (a : UInt32) :
    isForbiddenAddr a ↔ 0x80000000 ≤ a.toNat ∧ a.toNat < 0x80060000 ∨
      0x02000000 ≤ a.toNat ∧ a.toNat < 0x02010000 := Iff.rfl

theorem clampToUart_le (ub : UInt32) (hfits : addr.toNat + lenb.toNat < 2 ^ 32) :
    (clampToUart addr lenb ub).1.toNat ≤ lenb.toNat := by
  have hend : (addr + lenb).toNat = addr.toNat + lenb.toNat := by
    rw [UInt32.toNat_add, Nat.mod_eq_of_lt hfits]
  rw [clampToUart]
  split_ifs with hoverlap hinside hlong
  · exact (UInt32.lt_iff_toNat_lt.mp hlong).le
  · exact le_rfl
  · have hstop := UInt32.lt_iff_toNat_lt.mp hoverlap.2
    have hle : addr ≤ ub := UInt32.le_of_lt (UInt32.not_le.mp hinside)
    rw [UInt32.toNat_sub_of_le _ _ hle]
    omega
  · exact le_rfl

/-- A range that wraps is cut only if it goes nearly all the way around, from one register of the
UART to another before it. -/
theorem clampToUart_of_wraps {ub : UInt32} (hwraps : 2 ^ 32 ≤ addr.toNat + lenb.toNat) :
    (clampToUart addr lenb ub).1 = lenb ∧ ¬(addr < ub + 8 ∧ ub < addr + lenb) ∨
      (addr < ub + 8 ∧ ub < addr + lenb) ∧ (ub + 8).toNat = ub.toNat + 8 ∧
        addr.toNat + (clampToUart addr lenb ub).1.toNat = ub.toNat + 8 := by
  have haddr := addr.toNat_lt
  have hlenb := lenb.toNat_lt
  by_cases hoverlap : addr < ub + 8 ∧ ub < addr + lenb
  · have hbefore := UInt32.lt_iff_toNat_lt.mp hoverlap.1
    have hbehind := UInt32.lt_iff_toNat_lt.mp hoverlap.2
    have hend : (addr + lenb).toNat = addr.toNat + lenb.toNat - 2 ^ 32 := by
      rw [UInt32.toNat_add]
      omega
    have hregs : (ub + 8).toNat = ub.toNat + 8 := by
      have hsum : (ub + 8).toNat = (ub.toNat + 8) % 2 ^ 32 := UInt32.toNat_add ub 8
      omega
    have hinside : ub ≤ addr := by
      rw [UInt32.le_iff_toNat_le]
      omega
    have hsub : (ub + 8 - addr).toNat = ub.toNat + 8 - addr.toNat := by
      rw [UInt32.toNat_sub_of_le _ _ (UInt32.le_of_lt hoverlap.1), hregs]
    have hlong : ub + 8 - addr < lenb := by
      rw [UInt32.lt_iff_toNat_lt, hsub]
      omega
    refine .inr ⟨hoverlap, hregs, ?_⟩
    rw [clampToUart, if_pos hoverlap, if_pos hinside, if_pos hlong, hsub]
    omega
  · refine .inl ⟨?_, hoverlap⟩
    rw [clampToUart, if_neg hoverlap]

/-- A range that wraps meets the firmware unless it begins behind it, and the timer unless it ends
before it. -/
theorem forall_wraps_iff (hwraps : 2 ^ 32 ≤ addr.toNat + lenb.toNat) :
    (∀ k < lenb, ¬isForbiddenAddr (addr + k)) ↔ 0x80060000 ≤ addr ∧ addr + lenb ≤ 0x02000000 := by
  have haddr := addr.toNat_lt
  have hlenb := lenb.toNat_lt
  have hat : ∀ k : UInt32, (addr + k).toNat = (addr.toNat + k.toNat) % 2 ^ 32 :=
    UInt32.toNat_add addr
  have hend := hat lenb
  change _ ↔ 0x80060000 ≤ addr.toNat ∧ (addr + lenb).toNat ≤ 0x02000000
  constructor
  · intro h
    constructor
    · -- the last byte of the firmware would be read
      by_contra hlow
      have hle : addr ≤ 0x8005ffff := by
        change addr.toNat ≤ 0x8005ffff
        omega
      have hoff : (0x8005ffff - addr).toNat = 0x8005ffff - addr.toNat :=
        UInt32.toNat_sub_of_le _ _ hle
      refine h (0x8005ffff - addr) ?_ ?_
      · rw [UInt32.lt_iff_toNat_lt, hoff]
        omega
      · rw [isForbiddenAddr_iff, hat, hoff]
        omega
    · -- behind the wrap, the first byte of the timer would be read
      by_contra hhigh
      have hoff : (0x02000000 - addr).toNat = (2 ^ 32 - addr.toNat + 0x02000000) % 2 ^ 32 :=
        UInt32.toNat_sub _ _
      refine h (0x02000000 - addr) ?_ ?_
      · rw [UInt32.lt_iff_toNat_lt, hoff]
        omega
      · rw [isForbiddenAddr_iff, hat, hoff]
        omega
  · rintro ⟨hhigh, hlow⟩ k hk
    rw [UInt32.lt_iff_toNat_lt] at hk
    rw [isForbiddenAddr_iff, hat]
    omega

/-- The forbidden ranges are long, so a few bytes keep out of them if the first and the last do. -/
theorem forall_few_iff {n last : UInt32} (hlast : addr.toNat + n.toNat = last.toNat + 1)
    (hpos : 0 < n.toNat) (hfew : n.toNat ≤ 8) :
    (∀ k < n, ¬isForbiddenAddr (addr + k)) ↔ ¬isForbiddenAddr addr ∧ ¬isForbiddenAddr last := by
  have hbound := last.toNat_lt
  have hat : ∀ k : UInt32, (addr + k).toNat = (addr.toNat + k.toNat) % 2 ^ 32 :=
    UInt32.toNat_add addr
  constructor
  · intro h
    constructor
    · have hzero := h 0 (UInt32.lt_iff_toNat_lt.mpr hpos)
      rwa [UInt32.add_zero] at hzero
    · have hle : addr ≤ last := by
        rw [UInt32.le_iff_toNat_le]
        omega
      have hend := h (last - addr) (by
        rw [UInt32.lt_iff_toNat_lt, UInt32.toNat_sub_of_le _ _ hle]
        omega)
      rwa [UInt32.add_comm, UInt32.sub_add_cancel] at hend
  · rintro ⟨hfirst, hend⟩ k hk
    rw [UInt32.lt_iff_toNat_lt] at hk
    rw [isForbiddenAddr_iff] at hfirst hend ⊢
    rw [hat]
    omega

/-- When the dump keeps out of forbidden memory. A range that wraps is not checked: it has to begin
behind the firmware and to end before the timer, or to be cut to registers of the UART that are not
forbidden themselves. -/
def RangeOk (addr lenb ub : UInt32) : Prop :=
  addr.toNat + lenb.toNat < 2 ^ 32 ∨
    0x80060000 ≤ addr ∧ addr + lenb ≤ 0x02000000 ∨
    (addr < ub + 8 ∧ ub < addr + lenb) ∧ ¬isForbiddenAddr addr ∧ ¬isForbiddenAddr (ub + 7)

/-- **The dump.** For every address, length and base: the command ends, and it reads no forbidden
byte exactly if the range is as `RangeOk` says. -/
theorem mem_rd_iff (addr lenb base : UInt32) :
    (∀ fuel, 2 ^ 32 ≤ fuel → ∀ m, (cmdMemRd addr lenb base fuel).val m = some ()) ∧
      ((∀ x, Reads addr lenb base x → ¬isForbiddenAddr x) ↔
        RangeOk addr lenb (uartBaseEffective base)) := by
  refine ⟨fun fuel hfuel m ↦ cmdMemRd_val addr lenb base m hfuel, ?_⟩
  simp only [reads_iff]
  generalize uartBaseEffective base = ub
  have haddr := addr.toNat_lt
  have hlenb := lenb.toNat_lt
  have hsum : (addr + lenb).toNat = (addr.toNat + lenb.toNat) % 2 ^ 32 := UInt32.toNat_add addr lenb
  have hat : ∀ k : UInt32, (addr + k).toNat = (addr.toNat + k.toNat) % 2 ^ 32 :=
    UInt32.toNat_add addr
  by_cases hfits : addr.toNat + lenb.toNat < 2 ^ 32
  · -- the check has seen every byte that is read
    have hle := clampToUart_le ub hfits
    refine ⟨fun _ ↦ .inl hfits, ?_⟩
    rintro - x ⟨-, hcheck, k, hk, rfl⟩
    have hkNat := UInt32.lt_iff_toNat_lt.mp hk
    have hx := hat k
    apply hcheck
    · rw [UInt32.le_iff_toNat_le]
      omega
    · rw [UInt32.lt_iff_toNat_lt]
      omega
  · have hne : lenb ≠ 0 := by
      rintro rfl
      exact hfits haddr
    have hcheck : ∀ a, addr ≤ a → a < addr + lenb → ¬isForbiddenAddr a := by
      intro a hle hlt
      rw [UInt32.le_iff_toNat_le] at hle
      rw [UInt32.lt_iff_toNat_lt] at hlt
      omega
    -- an offset from the address that is in the range is read
    have hreads : ∀ {n : UInt32}, (∀ x, (lenb ≠ 0 ∧
          (∀ a, addr ≤ a → a < addr + lenb → ¬isForbiddenAddr a) ∧ ∃ k, k < n ∧ x = addr + k) →
          ¬isForbiddenAddr x) ↔ ∀ k < n, ¬isForbiddenAddr (addr + k) := by
      intro n
      constructor
      · intro h k hk
        exact h _ ⟨hne, hcheck, k, hk, rfl⟩
      · rintro h x ⟨-, -, k, hk, rfl⟩
        exact h k hk
    rw [hreads, RangeOk, or_iff_right hfits]
    rcases @clampToUart_of_wraps addr lenb ub (Nat.le_of_not_lt hfits) with
      ⟨hlen, hnot⟩ | ⟨hoverlap, hregs, hlen⟩
    · rw [hlen, or_iff_left fun h ↦ hnot h.1]
      exact forall_wraps_iff (Nat.le_of_not_lt hfits)
    · have hbefore := UInt32.lt_iff_toNat_lt.mp hoverlap.1
      have hbehind := UInt32.lt_iff_toNat_lt.mp hoverlap.2
      have hnot : ¬(0x80060000 ≤ addr ∧ addr + lenb ≤ 0x02000000) := by
        rintro ⟨hhigh, hlow⟩
        have hhighNat : 0x80060000 ≤ addr.toNat := UInt32.le_iff_toNat_le.mp hhigh
        have hlowNat : (addr + lenb).toNat ≤ 0x02000000 := UInt32.le_iff_toNat_le.mp hlow
        omega
      have hub := (ub + 8).toNat_lt
      have hlast : (ub + 7).toNat = ub.toNat + 7 := by
        have hseven : (ub + 7).toNat = (ub.toNat + 7) % 2 ^ 32 := UInt32.toNat_add ub 7
        omega
      rw [or_iff_right hnot, and_iff_right hoverlap]
      exact forall_few_iff (by omega) (by omega) (by omega)

/-- From the firmware on, around the end of memory: the check sees an empty range. -/
theorem forbidden_byte_read :
    ∃ x, Reads 0x80000000 0x80000000 0 x ∧ isForbiddenAddr x := by
  refine ⟨0x80000000, (reads_iff _ _ _ _).mpr ⟨by decide, ?_, 0, by decide, by decide⟩, by decide⟩
  intro a _ ha
  exact absurd ha UInt32.not_lt_zero

end CaribeOS.Console
