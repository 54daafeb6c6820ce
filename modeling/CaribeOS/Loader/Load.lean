import CaribeOS.Loader.Relocate
import CaribeOS.Loader.Segments

/-!
# Loading one library

Between the check of its header and the descent into its dependencies a library goes through
`probe_needed_phdrs`, `load_needed_segments`, `probe_needed_dynamic`, `apply_needed_relocations`
and `register_needed_object`. Each of them gives up silently on some inputs, and what it would have
set then keeps the value of the library before.
-/

namespace CaribeOS.Ld

open ByteMemory

/-! ## Dynamic tags -/

def dtNeeded : UInt32 := 1
def dtPltrelsz : UInt32 := 2
def dtHash : UInt32 := 4
def dtStrtab : UInt32 := 5
def dtSymtab : UInt32 := 6
def dtStrsz : UInt32 := 10
def dtSyment : UInt32 := 11
def dtInit : UInt32 := 12
def dtRelsz : UInt32 := 18
def dtRelent : UInt32 := 19
def dtPltrel : UInt32 := 20
def dtJmprel : UInt32 := 23
def dtInitArray : UInt32 := 25
def dtInitArraysz : UInt32 := 27
def dtGnuHash : UInt32 := 0x6ffffef5
def dtVersym : UInt32 := 0x6ffffff0
def dtVerdef : UInt32 := 0x6ffffffc
def dtVerdefnum : UInt32 := 0x6ffffffd

/-- One entry of the dynamic section. Past four `DT_NEEDED` the rest of them is ignored. -/
def LibDynamic.set (d : LibDynamic) (tag value : UInt32) : LibDynamic :=
  if tag = dtStrtab then { d with strtab := value }
  else if tag = dtStrsz then { d with strsz := value }
  else if tag = dtHash then { d with hash := value }
  else if tag = dtGnuHash then { d with gnuhash := value }
  else if tag = dtVersym then { d with versym := value }
  else if tag = dtVerdef then { d with verdef := value }
  else if tag = dtVerdefnum then { d with verdefnum := value }
  else if tag = dtSymtab then { d with symtab := value }
  else if tag = dtSyment then { d with syment := value }
  else if tag = dtNeeded then
    if maxTransitiveNeeded ≤ d.neededOffsets.length then d
    else { d with neededOffsets := d.neededOffsets ++ [value] }
  else if tag = dtInit then { d with init := value }
  else if tag = dtInitArray then { d with initArray := value }
  else if tag = dtInitArraysz then { d with initArraysz := value }
  else if tag = dtRel then { d with rel := value }
  else if tag = dtRelsz then { d with relsz := value }
  else if tag = dtRelent then { d with relent := value }
  else if tag = dtJmprel then { d with jmprel := value }
  else if tag = dtPltrelsz then { d with pltrelsz := value }
  else if tag = dtPltrel then { d with pltrel := value }
  else d

/-- The loop of `parse_needed_dynamic_table` over the entries at `a`, `n` of them at most. -/
def parseDynamic (m : Mem) : ℕ → UInt32 → LibDynamic → LibDynamic
  | 0, _, d => d
  | n + 1, a, d =>
    if loadWord m a = dtNull then d
    else parseDynamic m n (a + 8) (d.set (loadWord m a) (loadWord m (a + 4)))

def parseNeededDynamicTable (env : Env) (s : State) : State :=
  let n := min (s.scratch.dynamicRead / 8).toNat (neededDynamicBytes / 8).toNat
  { s with
    scratch :=
      { s.scratch with
        lib := parseDynamic s.mem n env.neededDynamicBuf {}
        gnuhashRuntime := 0
        versymRuntime := 0
        verdefNdx := 0
        verdefHash := 0
        verdefNameOff := 0
        symcount := 0 } }

/-! ## Tables of the library -/

/-- The file offset of an address of the library, from the first `PT_LOAD` header whose bytes in the
file cover it. -/
def vaddrToFileOff (ps : List Phdr) (a : UInt32) : Option UInt32 :=
  (ps.find? fun p ↦ p.type = ptLoad ∧ p.vaddr ≤ a ∧ a < p.vaddr + p.filesz).map fun p ↦
    a - p.vaddr + p.offset

def neededVaddrToFileOff (env : Env) (s : State) (a : UInt32) : Option UInt32 :=
  vaddrToFileOff (s.phdrs env) a

/-- Seek to an offset and read from there: the state afterwards, and `a0` if the seek has
succeeded. -/
def readAt (env : Env) (s : State) (off buf n : UInt32) : State × Option UInt32 :=
  match s.fd with
  | none => (s, none)
  | some f =>
    match sysLlseek env s f off with
    | (s, none) => (s, none)
    | (s, some f) =>
      let (s, a0) := sysRead env s f buf n
      (s, some a0)

/-- The number of bytes to read into a buffer of `size` bytes for a table of `n`. -/
def atMost (size n : UInt32) : UInt32 := if size ≤ n then size else n

def readNeededStrtab (env : Env) (s : State) : State :=
  let lib := s.scratch.lib
  if lib.strtab = 0 then s
  else
    match neededVaddrToFileOff env s lib.strtab with
    | none => s
    | some off =>
      -- the size is looked at after the seek, so that nothing is read for it
      if lib.strsz = 0 then
        match s.fd with
        | none => s
        | some f => (sysLlseek env s f off).1
      else
        match readAt env s off env.neededStrtabBuf (atMost neededObjStrtabBytes lib.strsz) with
        | (s, none) => s
        | (s, some a0) => { s with scratch := { s.scratch with strtabRead := a0 } }

def readNeededHash (s : State) : State :=
  let hash := s.scratch.lib.hash
  let nchain := loadWord s.mem (hash + s.scratch.loadBias + 4)
  { s with scratch := { s.scratch with symcount := if hash = 0 then 0 else nchain } }

def readNeededGnuHash (s : State) : State :=
  let gnuhash := s.scratch.lib.gnuhash
  { s with
    scratch :=
      { s.scratch with
        gnuhashRuntime := if gnuhash = 0 then 0 else gnuhash + s.scratch.loadBias } }

def readNeededVersym (s : State) : State :=
  let versym := s.scratch.lib.versym
  { s with
    scratch :=
      { s.scratch with
        versymRuntime :=
          if versym = 0 ∨ s.scratch.symcount < 2 then 0 else versym + s.scratch.loadBias } }

/-- Only the first definition of a version is read. -/
def readNeededVerdef (s : State) : State :=
  let lib := s.scratch.lib
  if lib.verdef = 0 ∨ lib.verdefnum = 0 then s
  else
    let verdef := lib.verdef + s.scratch.loadBias
    let aux := loadWord s.mem (verdef + 12)
    { s with
      scratch :=
        { s.scratch with
          verdefNdx := (loadHalf s.mem (verdef + 4)).toUInt32
          verdefHash := loadWord s.mem (verdef + 8)
          verdefNameOff :=
            if aux = 0 then s.scratch.verdefNameOff else loadWord s.mem (verdef + aux) } }

def materializeNeededSym1 (env : Env) (s : State) : State :=
  let c := s.scratch
  let s := { s with scratch := { c with sym1RuntimeAddr := 0 } }
  if c.sym1Value = 0 then s
  else if c.loadBase ≠ 0 then
    { s with scratch := { c with sym1RuntimeAddr := c.sym1Value + c.loadBias } }
  else
    match neededVaddrToFileOff env s c.sym1Value with
    | none => s
    | some off =>
      if c.sym1Size = 0 then
        match s.fd with
        | none => s
        | some f => (sysLlseek env s f off).1
      else
        match readAt env s off env.neededSym1RuntimeBuf (atMost 4 c.sym1Size) with
        | (s, none) => s
        | (s, some a0) =>
          if negative a0 then s
          else { s with scratch := { s.scratch with sym1RuntimeAddr := env.neededSym1RuntimeBuf } }

/-- The number of bytes to read of the symbol table. -/
def symtabBytes (c : Scratch) : UInt32 :=
  if c.symcount = 0 then neededObjSymtabBytes
  else atMost neededObjSymtabBytes (c.symcount * c.lib.syment)

def readNeededSymtab (env : Env) (s : State) : State :=
  let lib := s.scratch.lib
  if lib.symtab = 0 ∨ lib.syment < 16 then s
  else
    match neededVaddrToFileOff env s lib.symtab with
    | none => s
    | some off =>
      match readAt env s off env.neededSymtabBuf (symtabBytes s.scratch) with
      | (s, none) => s
      | (s, some a0) =>
        let s := { s with scratch := { s.scratch with symtabRead := a0 } }
        if negative a0 ∨ a0 < 2 * lib.syment then s
        else
          let sym1 := env.neededSymtabBuf + lib.syment
          materializeNeededSym1 env
            { s with
              scratch :=
                { s.scratch with
                  sym1Value := loadWord s.mem (sym1 + 4)
                  sym1Size := loadWord s.mem (sym1 + 8) } }

/-- The number of bytes to read of the dynamic section. -/
def dynamicBytes (c : Scratch) : UInt32 :=
  if c.dynamicSize = 0 then neededDynamicBytes else atMost neededDynamicBytes c.dynamicSize

def probeNeededDynamic (env : Env) (s : State) : State :=
  if s.scratch.dynamicOff = 0 then s
  else
    match readAt env s s.scratch.dynamicOff env.neededDynamicBuf (dynamicBytes s.scratch) with
    | (s, none) => s
    | (s, some a0) =>
      let s := { s with scratch := { s.scratch with dynamicRead := a0 } }
      if negative a0 then s
      else
        readNeededSymtab env <| readNeededVerdef <| readNeededVersym <| readNeededGnuHash <|
          readNeededHash <| readNeededStrtab env <| parseNeededDynamicTable env s

/-! ## Registration -/

/-- The entry for the library that has just been loaded. -/
def newObj (s : State) : NeededObj :=
  let c := s.scratch
  { name := s.neededCurrentName
    base := c.loadBase
    bias := c.loadBias
    strtabRead := c.strtabRead
    symtabRead := c.symtabRead
    syment := c.lib.syment
    symcount := c.symcount
    gnuhash := c.gnuhashRuntime
    versym := c.versymRuntime
    verdefNdx := c.verdefNdx
    verdefHash := c.verdefHash
    verdefNameOff := c.verdefNameOff
    init := if c.lib.init = 0 then 0 else c.lib.init + c.loadBias
    initArray := if c.lib.initArray = 0 then 0 else c.lib.initArray + c.loadBias
    initArraysz := c.lib.initArraysz }

/-- What `register_needed_object` asks of the state. -/
def Registrable (s : State) : Prop :=
  s.currentNeededObjIndex < maxNeededObjects ∧ s.scratch.loadBase ≠ 0 ∧
    s.scratch.strtabRead ≠ 0 ∧ s.scratch.symtabRead ≠ 0
  deriving Decidable

/-- `copy_bytes`, between buffers that do not overlap. -/
def copyBytes (m : Mem) (dst src : UInt32) (n : ℕ) : Mem :=
  writeBytes m dst n fun k ↦ m (src + .ofNat k)

/-- Memory after the copies of the two tables into the slots of object `i`. -/
def copyTables (env : Env) (s : State) (i : ℕ) : Mem :=
  let strtab := atMost neededObjStrtabBytes s.scratch.strtabRead
  let symtab := atMost neededObjSymtabBytes s.scratch.symtabRead
  let m := copyBytes s.mem (env.strtabSlot i) env.neededStrtabBuf strtab.toNat
  copyBytes m (env.symtabSlot i) env.neededSymtabBuf symtab.toNat

def registerNeededObject (env : Env) (s : State) : State :=
  if Registrable s then
    let i := s.currentNeededObjIndex
    { s with
      mem := copyTables env s i
      neededObj := Function.update s.neededObj i (newObj s)
      neededObjCount := i + 1 }
  else s

/-- A library from its header in the buffer to the closing of its file. -/
def loadNeededLibrary (env : Env) (s : State) : Except Stop State := do
  let s := probeNeededDynamic env (loadNeededSegments env (probeNeededPhdrs env s))
  let s ← applyNeededRelocations env s
  let s := registerNeededObject env s
  return { s with fd := none }

/-- A library from its header in the buffer to `register_needed_object`. -/
def beforeRegister (env : Env) (s : State) : Except Stop State :=
  applyNeededRelocations env
    (probeNeededDynamic env (loadNeededSegments env (probeNeededPhdrs env s)))

/-- The rest of it. -/
def afterRegister (env : Env) (t : State) : State := { registerNeededObject env t with fd := none }

theorem loadNeededLibrary_eq (env : Env) (s : State) :
    loadNeededLibrary env s = (beforeRegister env s).map (afterRegister env) := by
  rw [loadNeededLibrary, beforeRegister]
  cases applyNeededRelocations env
      (probeNeededDynamic env (loadNeededSegments env (probeNeededPhdrs env s))) with
  | error e => rfl
  | ok t => rfl

-- the calls of this are never evaluated step by step in a proof
attribute [irreducible] loadNeededLibrary

end CaribeOS.Ld
