import CaribeOS.Foundation.CString

/-!
# The dynamic loader: its state and its system calls

`ld_caribe.S` loads the shared libraries of a program, relocates them and the program, runs the
initialisers and jumps to the program. Its words in `.bss` are the fields of a record here, named
after their labels; its buffers are memory, one after the other from `needed_elf_header` on as the
assembler places them, so that a read past the end of one sees what stands in the next. What the
loader prints is left out: nothing depends on it.

The kernel's answers are arbitrary: any `openat`, `read`, `_llseek` or `mmap` may fail, and a `read`
may be short. What it cannot do is deliver bytes of another file.
-/

namespace CaribeOS.Ld

open ByteMemory

/-! ## Constants -/

def ptLoad : UInt32 := 1
def ptDynamic : UInt32 := 2
def dtNull : UInt32 := 0
def dtRel : UInt32 := 17
def emRiscv : UInt16 := 0xf3
def etDyn : UInt16 := 3
def rRiscv32 : UInt32 := 1
def rRiscvRelative : UInt32 := 3
def rRiscvJumpSlot : UInt32 := 5
def maxNeededObjects : ℕ := 8
def maxTransitiveNeeded : ℕ := 4
def neededDynamicBytes : UInt32 := 256
def neededObjStrtabBytes : UInt32 := 512
def neededObjSymtabBytes : UInt32 := 512

/-! ## The world around the loader -/

/-- The bytes of a file. -/
abbrev File := List UInt8

/-- A name, without the terminating zero. -/
abbrev Name := List UInt8

/-- What a `read` comes to: at most so many bytes, or a negative result. -/
inductive ReadAnswer where
  | upTo (n : ℕ)
  | error (code : UInt32)

/-- Where the loader stands, and how the kernel answers its system calls, by their number. -/
structure Env where
  /-- The address of `needed_elf_header`. -/
  neededElfHeader : UInt32
  /-- The loader is linked below the place where libraries go. -/
  below : neededElfHeader.toNat + 9732 ≤ 0x02000000
  openat : ℕ → List UInt8 → Option File
  read : ℕ → ReadAnswer
  llseek : ℕ → Bool
  mmap : ℕ → Bool

namespace Env

variable (env : Env)

def neededDynamicBuf : UInt32 := env.neededElfHeader + 256
def neededStrtabBuf : UInt32 := env.neededElfHeader + 512
def neededSymtabBuf : UInt32 := env.neededElfHeader + 1024
def neededObjStrtabPool : UInt32 := env.neededElfHeader + 1536
def neededObjSymtabPool : UInt32 := env.neededElfHeader + 5632
def neededSym1RuntimeBuf : UInt32 := env.neededElfHeader + 9728

/-- The slot of an object in the pool of string tables. -/
def strtabSlot (i : ℕ) : UInt32 := env.neededObjStrtabPool + .ofNat i * neededObjStrtabBytes

/-- The slot of an object in the pool of symbol tables. -/
def symtabSlot (i : ℕ) : UInt32 := env.neededObjSymtabPool + .ofNat i * neededObjSymtabBytes

end Env

/-! ## State -/

/-- What `parse_dynamic_tags` has found in the main program (the `dyn_` slots and `s9` to `s11`). -/
structure MainDynamic where
  mainBias : UInt32 := 0
  strtab : UInt32 := 0
  symtab : UInt32 := 0
  strsz : UInt32 := 0
  syment : UInt32 := 0
  neededOffsets : List UInt32 := []
  verneed : UInt32 := 0
  verneednum : UInt32 := 0
  versym : UInt32 := 0
  init : UInt32 := 0
  initArray : UInt32 := 0
  initArraysz : UInt32 := 0
  jmprel : UInt32 := 0
  pltrelsz : UInt32 := 0
  pltrel : UInt32 := 0
  rel : UInt32 := 0
  relsz : UInt32 := 0
  relent : UInt32 := 0

/-- The version requirement of the main program (the `main_verneed_` slots). -/
structure MainVerneed where
  fileOff : UInt32 := 0
  hash : UInt32 := 0
  other : UInt32 := 0
  nameOff : UInt32 := 0
  matched : Bool := false

/-- The slots that `parse_needed_dynamic_table` fills from the dynamic section of a library. -/
structure LibDynamic where
  strtab : UInt32 := 0
  strsz : UInt32 := 0
  hash : UInt32 := 0
  gnuhash : UInt32 := 0
  versym : UInt32 := 0
  verdef : UInt32 := 0
  verdefnum : UInt32 := 0
  symtab : UInt32 := 0
  syment : UInt32 := 0
  neededOffsets : List UInt32 := []
  rel : UInt32 := 0
  relsz : UInt32 := 0
  relent : UInt32 := 0
  jmprel : UInt32 := 0
  pltrelsz : UInt32 := 0
  pltrel : UInt32 := 0
  init : UInt32 := 0
  initArray : UInt32 := 0
  initArraysz : UInt32 := 0
deriving DecidableEq

/-- The slots of the library that is being loaded. They are reused from library to library, and zero
before the first. -/
structure Scratch where
  read : UInt32 := 0
  dynamicOff : UInt32 := 0
  dynamicSize : UInt32 := 0
  dynamicRead : UInt32 := 0
  lib : LibDynamic := {}
  gnuhashRuntime : UInt32 := 0
  versymRuntime : UInt32 := 0
  verdefNdx : UInt32 := 0
  verdefHash : UInt32 := 0
  verdefNameOff : UInt32 := 0
  symcount : UInt32 := 0
  strtabRead : UInt32 := 0
  symtabRead : UInt32 := 0
  sym1Value : UInt32 := 0
  sym1Size : UInt32 := 0
  sym1RuntimeAddr : UInt32 := 0
  loadMinVaddr : UInt32 := 0
  loadMaxVaddr : UInt32 := 0
  loadCount : UInt32 := 0
  loadBase : UInt32 := 0
  loadBias : UInt32 := 0

/-- An entry of the `needed_obj_` arrays. -/
structure NeededObj where
  name : Name := []
  base : UInt32 := 0
  bias : UInt32 := 0
  strtabRead : UInt32 := 0
  symtabRead : UInt32 := 0
  syment : UInt32 := 0
  symcount : UInt32 := 0
  gnuhash : UInt32 := 0
  versym : UInt32 := 0
  verdefNdx : UInt32 := 0
  verdefHash : UInt32 := 0
  verdefNameOff : UInt32 := 0
  init : UInt32 := 0
  initArray : UInt32 := 0
  initArraysz : UInt32 := 0

/-- An open file and the position in it. -/
structure OpenFile where
  file : File
  pos : ℕ

/-- A call of `mmap` with `MAP_PRIVATE | MAP_FIXED`. -/
structure MmapCall where
  addr : UInt32
  len : UInt32
  prot : UInt32
  off : UInt32
  ok : Bool
deriving DecidableEq

structure State where
  mem : Mem
  /-- The number of system calls so far. -/
  calls : ℕ
  /-- The calls of `mmap` so far. -/
  maps : List MmapCall
  main : MainDynamic
  verneed : MainVerneed
  currentMainSymVersym : UInt32
  /-- `needed_fd_slot`, `none` for `-1`. -/
  fd : Option OpenFile
  currentNeededObjIndex : ℕ
  neededCurrentName : Name
  scratch : Scratch
  neededObjCount : ℕ
  neededObj : ℕ → NeededObj

/-- The state when the dynamic section of the main program has been parsed: the words in `.bss` are
zero. -/
def State.initial (m : Mem) (main : MainDynamic) : State where
  mem := m
  calls := 0
  maps := []
  main := main
  verneed := {}
  currentMainSymVersym := 0
  fd := none
  currentNeededObjIndex := 0
  neededCurrentName := []
  scratch := {}
  neededObjCount := 0
  neededObj := fun _ ↦ {}

/-- Why a run ends early: the loader has called `exit_group(127)`, or the model is out of fuel. -/
inductive Stop where
  | exited
  | outOfFuel
deriving DecidableEq

/-! ## System calls -/

/-- The byte of a file at a position, zero behind its end. -/
def fileByte (f : File) (i : ℕ) : UInt8 := f.getD i 0

/-- `read` from the file of the library into a buffer: the state afterwards and `a0`. -/
def sysRead (env : Env) (s : State) (f : OpenFile) (buf : UInt32) (n : UInt32) : State × UInt32 :=
  match env.read s.calls with
  | .error code => ({ s with calls := s.calls + 1 }, code ||| 0x80000000)
  | .upTo most =>
    let k := min (f.file.length - f.pos) (min n.toNat most)
    ({ s with
        calls := s.calls + 1
        mem := writeBytes s.mem buf k fun i ↦ fileByte f.file (f.pos + i)
        fd := some { f with pos := f.pos + k } }, .ofNat k)

/-- `_llseek` with `SEEK_SET`: the state afterwards and the file at its new position. -/
def sysLlseek (env : Env) (s : State) (f : OpenFile) (off : UInt32) : State × Option OpenFile :=
  let moved := { f with pos := off.toNat }
  if env.llseek s.calls then
    ({ s with calls := s.calls + 1, fd := some moved }, some moved)
  else ({ s with calls := s.calls + 1 }, none)

/-- `mmap` of the file of the library over what was there. -/
def sysMmap (env : Env) (s : State) (f : OpenFile) (addr len prot off : UInt32) : State :=
  let ok := env.mmap s.calls
  { s with
    calls := s.calls + 1
    maps := s.maps ++ [⟨addr, len, prot, off, ok⟩]
    mem := if ok then writeBytes s.mem addr len.toNat fun i ↦ fileByte f.file (off.toNat + i)
      else s.mem }

/-- `a0` after a system call that has failed is negative. -/
def negative (a0 : UInt32) : Bool := 0x80000000 ≤ a0

/-! ## Samples -/

/-- A file given by its words. -/
def fileOfWords (ws : List UInt32) : File :=
  ws.flatMap fun w ↦ [byteOf w 0, byteOf w 1, byteOf w 2, byteOf w 3]

/-- A loader whose buffers start at `0x41000`, with no files around it. -/
def bareEnv : Env where
  neededElfHeader := 0x41000
  below := by decide
  openat := fun _ _ ↦ none
  read := fun _ ↦ .upTo 0
  llseek := fun _ ↦ false
  mmap := fun _ ↦ false

end CaribeOS.Ld
