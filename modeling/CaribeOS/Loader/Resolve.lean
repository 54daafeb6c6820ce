import CaribeOS.Loader.State

/-!
# Symbol resolution

A name is looked up in the registered objects, in the order of their registration: through the GNU
hash table of an object when it has one, and by a scan of its symbol table when that finds nothing.
For the main program there is a last resort, a scan of what the last library has left in the
buffers. A hit may end the program, when the main program asks for another version of the symbol.
-/

namespace CaribeOS.Ld

open ByteMemory

/-- What a look-up comes to: `exit_group(127)`, nothing, or an address. -/
inductive Lookup where
  | exited
  | missing
  | found (value : UInt32)
deriving DecidableEq

/-- Go on looking where nothing has been found. -/
def Lookup.orElse : Lookup → Lookup → Lookup
  | missing, l => l
  | exited, _ => exited
  | found v, _ => found v

/-- The fields of `Elf32_Sym` that are used. -/
structure Sym where
  name : UInt32
  value : UInt32
  info : UInt8
deriving DecidableEq

def symAt (m : Mem) (a : UInt32) : Sym where
  name := loadWord m a
  value := loadWord m (a + 4)
  info := m (a + 12)

/-- A definition that other objects can use: global or weak, of type `NOTYPE`, `OBJECT` or `FUNC`,
with a value. -/
def Sym.Defines (y : Sym) : Prop :=
  (y.info >>> 4 = 1 ∨ y.info >>> 4 = 2) ∧ y.info &&& 0x0f ≤ 2 ∧ y.value ≠ 0
  deriving Decidable

/-- The loop of `gnu_hash_name`. -/
def gnuHashFrom (m : Mem) : ℕ → UInt32 → UInt32 → UInt32
  | 0, _, h => h
  | n + 1, a, h =>
    if m a = 0 then h else gnuHashFrom m n (a + 1) (33 * h + (m a).toUInt32)

def gnuHashName (m : Mem) (a : UInt32) : UInt32 := gnuHashFrom m addressSpace a 5381

/-! ## Versions of symbols -/

/-- The object is the one that the version requirement of the main program names. -/
def requirementNames (s : State) (i : ℕ) : Prop :=
  s.main.strtab ≠ 0 ∧ i < s.neededObjCount ∧
    IsCstr s.mem (s.main.strtab + s.verneed.fileOff) (s.neededObj i).name
  deriving Decidable

/-- `enforce_needed_versym_with_msg`: whether the loader goes on. -/
def enforceNeededVersym (s : State) (i : ℕ) (versym : UInt16) : Bool :=
  if s.verneed.matched then
    let want := if s.currentMainSymVersym ≠ 0 then s.currentMainSymVersym else s.verneed.other
    if want = 0 then true
    else if requirementNames s i then (versym &&& 0x7fff).toUInt32 = want
    else true
  else true

/-- `enforce_missing_needed_versym_with_msg`: whether the loader goes on. -/
def enforceMissingNeededVersym (s : State) (i : ℕ) : Bool :=
  if s.verneed.matched then
    if s.currentMainSymVersym ≤ 1 then true else ¬requirementNames s i
  else true

/-- The check of the version of symbol `j` of object `i`. -/
def enforceVersym (s : State) (i : ℕ) (j : UInt32) : Bool :=
  let versym := (s.neededObj i).versym
  if versym = 0 then enforceMissingNeededVersym s i
  else enforceNeededVersym s i (loadHalf s.mem (versym + 2 * j))

/-! ## Registered objects -/

section Table

variable (env : Env) (s : State)

/-- Symbol `j` in the slot of object `i`. -/
def slotSym (i : ℕ) (j : UInt32) : Sym :=
  symAt s.mem (env.symtabSlot i + j * (s.neededObj i).syment)

/-- Symbol `j` of object `i` is a definition of the name at `name`. -/
def SlotDefines (name : UInt32) (i : ℕ) (j : UInt32) : Prop :=
  (slotSym env s i j).name < (s.neededObj i).strtabRead ∧
    cstrEqual s.mem name (env.strtabSlot i + (slotSym env s i j).name) = true ∧
      (slotSym env s i j).Defines
  deriving Decidable

/-- What is returned for symbol `j` of object `i`. -/
def slotHit (i : ℕ) (j : UInt32) : Lookup :=
  if enforceVersym s i j then .found ((slotSym env s i j).value + (s.neededObj i).bias) else .exited

/-- The loop of `resolve_needed_symbol_gnuhash` along a chain: `n` is the number of symbols, `chain`
the address of the word for symbol `j`. -/
def gnuhashWalk (name hash : UInt32) (i : ℕ) (n : UInt32) : ℕ → UInt32 → UInt32 → Lookup
  | 0, _, _ => .missing
  | fuel + 1, j, chain =>
    if n ≤ j then .missing
    else if (loadWord s.mem chain ^^^ hash) >>> 1 = 0 ∧ SlotDefines env s name i j then
      slotHit env s i j
    else if loadWord s.mem chain &&& 1 ≠ 0 then .missing
    else gnuhashWalk name hash i n fuel (j + 1) (chain + 4)

def resolveNeededSymbolGnuhash (name hash : UInt32) (i : ℕ) (n : UInt32) : Lookup :=
  let gnuhash := (s.neededObj i).gnuhash
  let nbucket := loadWord s.mem gnuhash
  let symoffset := loadWord s.mem (gnuhash + 4)
  let bloomSize := loadWord s.mem (gnuhash + 8)
  let bloomShift := loadWord s.mem (gnuhash + 12)
  if nbucket = 0 ∨ bloomSize = 0 then .missing
  else
    let bloom := loadWord s.mem (gnuhash + 16 + 4 * ((hash >>> (5 : UInt32)) % bloomSize))
    let mask := (1 <<< (hash &&& 31)) ||| (1 <<< ((hash >>> bloomShift) &&& 31))
    if bloom &&& mask ≠ mask then .missing
    else
      let buckets := gnuhash + 16 + 4 * bloomSize
      let first := loadWord s.mem (buckets + 4 * (hash % nbucket))
      if first < symoffset ∨ n ≤ first then .missing
      else
        gnuhashWalk env s name hash i n n.toNat first
          (buckets + 4 * nbucket + 4 * (first - symoffset))

/-- The scan of the symbol table of object `i` from symbol `j` on, with the number of symbols that
are left. -/
def symtabScan (name : UInt32) (i : ℕ) : ℕ → UInt32 → Lookup
  | 0, _ => .missing
  | left + 1, j =>
    if SlotDefines env s name i j then slotHit env s i j else symtabScan name i left (j + 1)

/-- The number of symbols of an object: from `DT_HASH`, else from what has been read. -/
def objSymbols (o : NeededObj) : UInt32 :=
  if o.symcount ≠ 0 then o.symcount else o.symtabRead / o.syment

/-- The loop body of `resolve_needed_symbol_table`. -/
def resolveInObject (name hash : UInt32) (i : ℕ) : Lookup :=
  let o := s.neededObj i
  if o.syment < 16 ∨ o.symtabRead = 0 ∨ objSymbols o ≤ 1 then .missing
  else
    (if o.gnuhash ≠ 0 then resolveNeededSymbolGnuhash env s name hash i (objSymbols o)
      else .missing).orElse
      (symtabScan env s name i ((objSymbols o).toNat - 1) 1)

/-- The loop over the objects from `i` on, `left` of them. -/
def resolveFrom (name hash : UInt32) : ℕ → ℕ → Lookup
  | 0, _ => .missing
  | left + 1, i => (resolveInObject env s name hash i).orElse (resolveFrom name hash left (i + 1))

def resolveNeededSymbolTable (name : UInt32) : Lookup :=
  resolveFrom env s name (gnuHashName s.mem name) s.neededObjCount 0

/-! ## Symbols of the main program -/

/-- The version of a symbol of the main program. -/
def mainSymVersym (sym : UInt32) : UInt32 :=
  if s.main.symtab = 0 ∨ s.main.syment = 0 ∨ s.main.versym = 0 ∨ sym < s.main.symtab then 0
  else
    (loadHalf s.mem (s.main.versym + 2 * ((sym - s.main.symtab) / s.main.syment))).toUInt32

/-- Symbol `j` in the buffer of the last library. -/
def bufSym (j : UInt32) : Sym := symAt s.mem (env.neededSymtabBuf + j * s.scratch.lib.syment)

/-- The address of symbol `j` of the last library, if that defines the name at `name`. -/
def bufHit (name : UInt32) (j : UInt32) : Option UInt32 :=
  let y := bufSym env s j
  if y.name < s.scratch.strtabRead ∧ cstrEqual s.mem name (env.neededStrtabBuf + y.name) = true ∧
      y.Defines then
    if s.scratch.loadBase ≠ 0 then some (y.value + s.scratch.loadBias)
    else if y.value = s.scratch.sym1Value ∧ s.scratch.sym1RuntimeAddr ≠ 0 then
      some s.scratch.sym1RuntimeAddr
    else none
  else none

/-- The scan of the buffer of the last library. -/
def bufScan (name : UInt32) : ℕ → UInt32 → Lookup
  | 0, _ => .missing
  | left + 1, j =>
    match bufHit env s name j with
    | some v => .found v
    | none => bufScan name left (j + 1)

/-- The last resort of `resolve_needed_symbol_preserve`. -/
def resolveInBuffer (name : UInt32) : Lookup :=
  let n := s.scratch.symtabRead / s.scratch.lib.syment
  if s.scratch.symtabRead = 0 ∨ s.scratch.lib.syment < 16 ∨ n ≤ 1 then .missing
  else bufScan env s name (n.toNat - 1) 1

/-- The look-up for the symbol of the main program at `sym`. -/
def resolveNeededSymbolPreserve (sym : UInt32) : Lookup :=
  let s := { s with currentMainSymVersym := mainSymVersym s sym }
  let name := loadWord s.mem sym
  if s.main.strtab = 0 ∨ s.main.strsz = 0 ∨ s.main.strsz ≤ name then .missing
  else
    (resolveNeededSymbolTable env s (name + s.main.strtab)).orElse
      (resolveInBuffer env s (name + s.main.strtab))

end Table

end CaribeOS.Ld
