import CaribeOS.Loader.Resolve

/-!
# Relocation

The loader has the rules of relocation three times: for `DT_REL` of the main program, for
`DT_JMPREL` of the main program, and for both tables of a library. Each of the three is given here
as the word that an entry has stored, and a loop over a table is common to them.

The word before relocation is `A`, the load bias `B` and the address of the symbol `S`. The psABI
has `B + A` for `R_RISCV_RELATIVE`, `S + A` for `R_RISCV_32` and `S` for `R_RISCV_JUMP_SLOT`. The
three copies follow it, and one another, for some entries only.
-/

namespace CaribeOS.Ld

open ByteMemory

/-- `Elf32_Rel`. -/
structure Rel where
  offset : UInt32
  info : UInt32
deriving DecidableEq

def relAt (m : Mem) (a : UInt32) : Rel where
  offset := loadWord m a
  info := loadWord m (a + 4)

def Rel.type (r : Rel) : UInt32 := r.info &&& 0xff

def Rel.sym (r : Rel) : UInt32 := r.info >>> 8

/-! ## Tables -/

/-- One entry: the word that the rule has for it, if any, goes to its target. -/
def applyEntry (rule : State → Rel → Except Stop (Option UInt32)) (bias : State → UInt32)
    (s : State) (a : UInt32) : Except Stop State :=
  match rule s (relAt s.mem a) with
  | .error e => .error e
  | .ok none => .ok s
  | .ok (some w) =>
    .ok { s with mem := storeWord s.mem ((relAt s.mem a).offset + bias s) w }

/-- A table of `n` entries of eight bytes at `a`. -/
def applyTable (entry : State → UInt32 → Except Stop State) : ℕ → State → UInt32 → Except Stop State
  | 0, s, _ => .ok s
  | n + 1, s, a =>
    match entry s a with
    | .error e => .error e
    | .ok s' => applyTable entry n s' (a + 8)

/-! ## The main program -/

section Main

variable (env : Env)

def mainSymbol (s : State) (r : Rel) : UInt32 := s.main.symtab + r.sym * s.main.syment

/-- The symbol of an entry: its own definition, else a library's; `none` without a symbol table. -/
def mainLookup (s : State) (r : Rel) : Option Lookup :=
  if s.main.symtab = 0 ∨ s.main.syment = 0 then none
  else
    let own := loadWord s.mem (mainSymbol s r + 4)
    if own ≠ 0 then some (.found (own + s.main.mainBias))
    else some (resolveNeededSymbolPreserve env s (mainSymbol s r))

/-- `R_RISCV_JUMP_SLOT` in both tables of the main program. -/
def mainJumpSlot (s : State) (r : Rel) : Except Stop (Option UInt32) :=
  match mainLookup env s r with
  | some (.found v) => .ok (some v)
  | some .exited => .error .exited
  | some .missing | none => .ok none

/-- The loop body of `apply_main_rel`. -/
def mainRel (s : State) (r : Rel) : Except Stop (Option UInt32) :=
  let word := loadWord s.mem (r.offset + s.main.mainBias)
  if r.type = rRiscvRelative then .ok (some (word + s.main.mainBias))
  else if r.type = rRiscv32 then
    match mainLookup env s r with
    | some (.found v) => .ok (some (v + word))
    -- the value of the undefined symbol is zero, and the bias is added to it all the same
    | some .missing => .ok (some (0 + s.main.mainBias + word))
    | some .exited => .error .exited
    | none => .ok none
  else if r.type = rRiscvJumpSlot then mainJumpSlot env s r
  else .ok none

/-- The loop body of `apply_main_jmprel`. -/
def mainJmprel (s : State) (r : Rel) : Except Stop (Option UInt32) :=
  if r.type = rRiscvJumpSlot then mainJumpSlot env s r else .ok none

def mainRelEntry : State → UInt32 → Except Stop State := applyEntry (mainRel env) (·.main.mainBias)

def mainJmprelEntry : State → UInt32 → Except Stop State :=
  applyEntry (mainJmprel env) (·.main.mainBias)

def applyMainRel (s : State) : Except Stop State :=
  if s.main.rel = 0 ∨ s.main.relsz = 0 ∨ s.main.relent ≠ 8 then .ok s
  else applyTable (mainRelEntry env) (s.main.relsz / 8).toNat s s.main.rel

def applyMainJmprel (s : State) : Except Stop State :=
  if s.main.jmprel = 0 ∨ s.main.pltrelsz = 0 ∨ s.main.pltrel ≠ dtRel then .ok s
  else applyTable (mainJmprelEntry env) (s.main.pltrelsz / 8).toNat s s.main.jmprel

end Main

/-! ## Libraries -/

section Needed

variable (env : Env)

/-- The symbol of an entry, in the buffer of the library that is being loaded. -/
def neededSym (s : State) (r : Rel) : Sym :=
  symAt s.mem (env.neededSymtabBuf + r.sym * s.scratch.lib.syment)

/-- The symbol of an entry; `none` when it is not within what has been read. -/
def neededLookup (s : State) (r : Rel) : Option Lookup :=
  if r.sym = 0 ∨ s.scratch.lib.syment < 16 ∨
      s.scratch.symtabRead ≤ r.sym * s.scratch.lib.syment ∨
        s.scratch.strtabRead ≤ (neededSym env s r).name then none
  else some (resolveNeededSymbolTable env s (env.neededStrtabBuf + (neededSym env s r).name))

/-- The loop body of `apply_needed_relocation_table`. Whether an undefined symbol is weak decides
only whether the entry is counted. -/
def neededRel (s : State) (r : Rel) : Except Stop (Option UInt32) :=
  let word := loadWord s.mem (r.offset + s.scratch.loadBias)
  if r.type = rRiscvRelative then .ok (some (word + s.scratch.loadBias))
  else if r.type = rRiscv32 ∨ r.type = rRiscvJumpSlot then
    match neededLookup env s r with
    | some (.found v) => .ok (some (v + word))
    | some .exited => .error .exited
    | some .missing | none => .ok none
  else .ok none

def neededRelEntry : State → UInt32 → Except Stop State :=
  applyEntry (neededRel env) (·.scratch.loadBias)

def applyNeededRelocationTable (s : State) (rel relsz relent : UInt32) : Except Stop State :=
  if rel = 0 ∨ relsz = 0 ∨ relent ≠ 8 then .ok s
  else applyTable (neededRelEntry env) (relsz / 8).toNat s (rel + s.scratch.loadBias)

def applyNeededRelocations (s : State) : Except Stop State := do
  let lib := s.scratch.lib
  let s ← applyNeededRelocationTable env s lib.rel lib.relsz lib.relent
  if lib.pltrel = dtRel then applyNeededRelocationTable env s lib.jmprel lib.pltrelsz lib.relent
  else return s

end Needed

/-! ## Agreement of the three copies -/

/-- What the look-up of a symbol comes to, for a program that can be relocated. -/
inductive Outcome where
  | found (S : UInt32)
  | undefinedWeak
deriving DecidableEq

/-- `S`, zero for an undefined weak symbol. -/
def Outcome.address : Outcome → UInt32
  | found S => S
  | undefinedWeak => 0

/-- The symbol is weak where it is used. -/
def Sym.Weak (y : Sym) : Prop := y.info >>> 4 = 2
  deriving Decidable

/-- `o` is what the look-up comes to, with the symbol as the object itself has it. -/
def Outcome.Of (o : Outcome) (l : Option Lookup) (y : Sym) : Prop :=
  match o with
  | found S => l = some (.found S)
  | undefinedWeak => l = some .missing ∧ y.Weak

instance (l : Option Lookup) (y : Sym) : (o : Outcome) → Decidable (o.Of l y)
  | .found S => inferInstanceAs (Decidable (l = some (.found S)))
  | .undefinedWeak => inferInstanceAs (Decidable (l = some .missing ∧ y.Weak))

/-- What the psABI has for an entry. -/
def Rel.word (r : Rel) (B A : UInt32) (o : Outcome) : UInt32 :=
  if r.type = rRiscvRelative then B + A
  else if r.type = rRiscv32 then o.address + A
  else o.address

/-- The entry `r` stands at `a` for the main program in `s`, and at `b` for a library in `t`, with
one bias, one word at its target and one outcome of the look-up. -/
structure SameInput (env : Env) (s t : State) (a b : UInt32) (r : Rel) (B A : UInt32)
    (o : Outcome) : Prop where
  mainEntry : relAt s.mem a = r
  neededEntry : relAt t.mem b = r
  mainBias : s.main.mainBias = B
  loadBias : t.scratch.loadBias = B
  mainWord : loadWord s.mem (r.offset + B) = A
  neededWord : loadWord t.mem (r.offset + B) = A
  mainOutcome : r.type ≠ rRiscvRelative → o.Of (mainLookup env s r) (symAt s.mem (mainSymbol s r))
  neededOutcome : r.type ≠ rRiscvRelative → o.Of (neededLookup env t r) (neededSym env t r)

/-- The word at `x` after a step that has not ended the program. -/
def wordAfter (x : UInt32) : Except Stop State → Option UInt32
  | .ok s => some (loadWord s.mem x)
  | .error _ => none

/-- An entry has the word of its rule at its target afterwards, or the word before. -/
theorem wordAfter_applyEntry (rule : State → Rel → Except Stop (Option UInt32))
    (bias : State → UInt32) {s : State} {a : UInt32} {w : Option UInt32}
    (h : rule s (relAt s.mem a) = .ok w) :
    wordAfter ((relAt s.mem a).offset + bias s) (applyEntry rule bias s a) =
      some (w.getD (loadWord s.mem ((relAt s.mem a).offset + bias s))) := by
  rw [applyEntry, h]
  cases w with
  | none => rfl
  | some w => simp only [wordAfter, loadWord_storeWord, Option.getD_some]

/-- The entries of `DT_REL` for which the three agree: an undefined weak symbol needs a bias of
zero, and a jump slot a word of zero. -/
def RelAgrees (r : Rel) (B A : UInt32) (o : Outcome) : Prop :=
  (r.type = rRiscv32 → o = .undefinedWeak → B = 0) ∧ (r.type = rRiscvJumpSlot → A = 0)

/-- The entries of `DT_JMPREL` for which the three agree. In the main program the first two kinds are
passed over there. -/
def JmprelAgrees (r : Rel) (B A : UInt32) (o : Outcome) : Prop :=
  (r.type = rRiscvRelative → B = 0) ∧ (r.type = rRiscv32 → o.address = 0) ∧
    (r.type = rRiscvJumpSlot → A = 0)

section Agreement

variable {env : Env} {s t : State} {a b : UInt32} {r : Rel} {B A : UInt32} {o : Outcome}

theorem SameInput.wordAfter_main (h : SameInput env s t a b r B A o)
    {rule : State → Rel → Except Stop (Option UInt32)} {w : Option UInt32} (hw : rule s r = .ok w) :
    wordAfter (r.offset + B) (applyEntry rule (·.main.mainBias) s a) = some (w.getD A) := by
  have hentry := wordAfter_applyEntry rule (·.main.mainBias) (s := s) (a := a) (w := w)
  rw [h.mainEntry, h.mainBias, h.mainWord] at hentry
  exact hentry hw

theorem SameInput.wordAfter_needed (h : SameInput env s t a b r B A o) {w : Option UInt32}
    (hw : neededRel env t r = .ok w) :
    wordAfter (r.offset + B) (neededRelEntry env t b) = some (w.getD A) := by
  have hentry := wordAfter_applyEntry (neededRel env) (·.scratch.loadBias) (s := t) (a := b) (w := w)
  rw [h.neededEntry, h.loadBias, h.neededWord] at hentry
  exact hentry hw

/-- A jump slot of the main program keeps its word when there is no definition. -/
theorem mainJumpSlot_of_outcome {y : Sym} (h : o.Of (mainLookup env s r) y) :
    mainJumpSlot env s r = .ok (if o = .undefinedWeak then none else some o.address) := by
  cases o with
  | found S =>
    have hl : mainLookup env s r = some (.found S) := h
    rw [mainJumpSlot, hl]
    rfl
  | undefinedWeak =>
    rw [mainJumpSlot, h.1]
    rfl

/-- A word of the main program has the bias added when there is no definition. -/
theorem SameInput.mainRel_32 (h : SameInput env s t a b r B A o) (htype : r.type = rRiscv32) :
    mainRel env s r = .ok (some (if o = .undefinedWeak then B + A else o.address + A)) := by
  have hne : r.type ≠ rRiscvRelative := by rw [htype]; decide
  have hlook := h.mainOutcome hne
  rw [mainRel, if_neg hne, if_pos htype, h.mainBias, h.mainWord]
  cases o with
  | found S =>
    have hl : mainLookup env s r = some (.found S) := hlook
    rw [hl]
    rfl
  | undefinedWeak =>
    rw [hlook.1, UInt32.zero_add]
    rfl

/-- In a library both kinds add the address to the word, and nothing is stored when there is no
definition. -/
theorem SameInput.neededRel_symbol (h : SameInput env s t a b r B A o)
    (hne : r.type ≠ rRiscvRelative) (htype : r.type = rRiscv32 ∨ r.type = rRiscvJumpSlot) :
    neededRel env t r = .ok (if o = .undefinedWeak then none else some (o.address + A)) := by
  have hlook := h.neededOutcome hne
  rw [neededRel, if_neg hne, if_pos htype, h.loadBias, h.neededWord]
  cases o with
  | found S =>
    have hl : neededLookup env t r = some (.found S) := hlook
    rw [hl]
    rfl
  | undefinedWeak =>
    rw [hlook.1]
    rfl

/-- **The three copies of the rules.** At an entry of one of the three kinds, with the same bias,
word and look-up, the main program and a library both get the word of the psABI exactly when the
entry is one of `RelAgrees` for `DT_REL`, and one of `JmprelAgrees` for `DT_JMPREL`. -/
theorem relocation_agrees_iff (h : SameInput env s t a b r B A o)
    (htype : r.type = rRiscvRelative ∨ r.type = rRiscv32 ∨ r.type = rRiscvJumpSlot) :
    (wordAfter (r.offset + B) (mainRelEntry env s a) = some (r.word B A o) ∧
        wordAfter (r.offset + B) (neededRelEntry env t b) = some (r.word B A o) ↔
      RelAgrees r B A o) ∧
    (wordAfter (r.offset + B) (mainJmprelEntry env s a) = some (r.word B A o) ∧
        wordAfter (r.offset + B) (neededRelEntry env t b) = some (r.word B A o) ↔
      JmprelAgrees r B A o) := by
  have hrelative32 : rRiscvRelative ≠ rRiscv32 := by decide
  have hrelativeSlot : rRiscvRelative ≠ rRiscvJumpSlot := by decide
  have hslot32 : rRiscvJumpSlot ≠ rRiscv32 := by decide
  rcases htype with htype | htype | htype
  · have hmain : mainRel env s r = .ok (some (A + B)) := by
      rw [mainRel, if_pos htype, h.mainBias, h.mainWord]
    have hjmprel : mainJmprel env s r = .ok none := by
      rw [mainJmprel, if_neg (by rw [htype]; exact hrelativeSlot)]
    have hneeded : neededRel env t r = .ok (some (A + B)) := by
      rw [neededRel, if_pos htype, h.loadBias, h.neededWord]
    rw [mainRelEntry, mainJmprelEntry, h.wordAfter_main hmain, h.wordAfter_main hjmprel,
      h.wordAfter_needed hneeded, Rel.word, if_pos htype, RelAgrees, JmprelAgrees, htype]
    simp only [Option.getD_some, Option.getD_none, Option.some.injEq, hrelative32, hrelativeSlot]
    grind
  · have hne : r.type ≠ rRiscvRelative := by rw [htype]; exact hrelative32.symm
    have hmain := h.mainRel_32 htype
    have hjmprel : mainJmprel env s r = .ok none := by
      rw [mainJmprel, if_neg (by rw [htype]; exact hslot32.symm)]
    have hneeded := h.neededRel_symbol hne (Or.inl htype)
    rw [mainRelEntry, mainJmprelEntry, h.wordAfter_main hmain, h.wordAfter_main hjmprel,
      h.wordAfter_needed hneeded, Rel.word, if_neg hne, if_pos htype, RelAgrees, JmprelAgrees, htype]
    cases o with
    | found S => simp [Outcome.address, hslot32.symm, hrelative32.symm]
    | undefinedWeak => simp [Outcome.address, hslot32.symm, hrelative32.symm]
  · have hne : r.type ≠ rRiscvRelative := by rw [htype]; exact hrelativeSlot.symm
    have hne32 : r.type ≠ rRiscv32 := by rw [htype]; exact hslot32
    have hslot := mainJumpSlot_of_outcome (h.mainOutcome hne)
    have hmain : mainRel env s r = .ok (if o = .undefinedWeak then none else some o.address) := by
      rw [mainRel, if_neg hne, if_neg hne32, if_pos htype, hslot]
    have hjmprel : mainJmprel env s r =
        .ok (if o = .undefinedWeak then none else some o.address) := by
      rw [mainJmprel, if_pos htype, hslot]
    have hneeded := h.neededRel_symbol hne (Or.inr htype)
    rw [mainRelEntry, mainJmprelEntry, h.wordAfter_main hmain, h.wordAfter_main hjmprel,
      h.wordAfter_needed hneeded, Rel.word, if_neg hne, if_neg hne32, RelAgrees, JmprelAgrees, htype]
    cases o with
    | found S => simp [Outcome.address, hslot32, hrelativeSlot.symm]
    | undefinedWeak => simp [Outcome.address, hslot32, hrelativeSlot.symm]

end Agreement

/-- An entry for `word` at `0x10300`, with a bias of `0x10000`. Symbol 1 is weak and undefined in the
main program as well as in the library. -/
def biasedEntry (info word : UInt32) : State :=
  let weak : Mem := storeByte (storeByte (fun _ ↦ 0) 0x11c 0x20) 0x4141c 0x20
  { State.initial (storeWord (storeWord (storeWord weak 0x10300 word) 0x200 0x300) 0x204 info)
      { mainBias := 0x10000, symtab := 0x100, syment := 16 } with
    scratch :=
      { loadBias := 0x10000, lib := { syment := 16 }, symtabRead := 32, strtabRead := 1 } }

/-- The bias is added to a word by both copies. -/
theorem relocation_agrees_relative :
    RelAgrees ⟨0x300, 3⟩ 0x10000 0x44 .undefinedWeak ∧
      wordAfter 0x10300 (mainRelEntry bareEnv (biasedEntry 3 0x44) 0x200) = some 0x10044 ∧
        wordAfter 0x10300 (neededRelEntry bareEnv (biasedEntry 3 0x44) 0x200) = some 0x10044 := by
  have hagrees : RelAgrees ⟨0x300, 3⟩ 0x10000 0x44 .undefinedWeak := by
    constructor <;> decide
  have hinput : SameInput bareEnv (biasedEntry 3 0x44) (biasedEntry 3 0x44) 0x200 0x200
      ⟨0x300, 3⟩ 0x10000 0x44 .undefinedWeak := by
    constructor <;> decide
  exact ⟨hagrees, (relocation_agrees_iff hinput (by decide)).1.mpr hagrees⟩

/-- The main program gets the bias for the weak symbol, and a library gets the zero. -/
theorem weak_reference_relocated_apart :
    SameInput bareEnv (biasedEntry 0x101 0) (biasedEntry 0x101 0) 0x200 0x200
        ⟨0x300, 0x101⟩ 0x10000 0 .undefinedWeak ∧
      wordAfter 0x10300 (mainRelEntry bareEnv (biasedEntry 0x101 0) 0x200) = some 0x10000 ∧
        wordAfter 0x10300 (neededRelEntry bareEnv (biasedEntry 0x101 0) 0x200) = some 0 ∧
          Rel.word ⟨0x300, 0x101⟩ 0x10000 0 .undefinedWeak = 0 := by
  refine ⟨?_, by decide, by decide, by decide⟩
  constructor <;> decide

end CaribeOS.Ld
