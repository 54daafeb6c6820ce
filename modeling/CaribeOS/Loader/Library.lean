import CaribeOS.Loader.Load

/-!
# Libraries as files

What the loader finds in a library is a function of the file alone as long as nothing goes wrong on
the way. This module has that function: the program headers, the dynamic section and the tables as
they are in the file, the segments as they will be in a slot, and the entry that the library will
have in the registry. `Loadable` says which files this is right for.

A slot is seen here from its beginning: an address `a` of the library is at `a` minus its lowest
address.
-/

namespace CaribeOS.Ld

open ByteMemory

/-- A file as memory. -/
def fileMem (f : File) : Mem := fun x ↦ fileByte f x.toNat

/-- The number of bytes that a read of `n` at an offset delivers. -/
def fileRead (f : File) (off n : UInt32) : UInt32 := .ofNat (min (f.length - off.toNat) n.toNat)

section File

variable (f : File)

/-! ## Headers and segments -/

def filePhdrs : List Phdr := phdrs (fileMem f) 0

def fileBounds : LoadBounds := loadBounds (filePhdrs f)

/-- The lowest address of the library. -/
def lowest : UInt32 := (fileBounds f).minVaddr

/-- The slots of the loader as far as the segments depend on them, with the slot at zero. -/
def atZero : Scratch := { loadMinVaddr := lowest f }

/-- What `mmap` does to memory for a segment. -/
def mapSegment (c : Scratch) (m : Mem) (p : Phdr) : Mem :=
  if Mapped c p then
    writeBytes m (segmentAddr c p) (segmentLen c p).toNat fun k ↦
      fileByte f ((p.offset &&& ~~~0xfff).toNat + k)
  else m

/-- The library in a slot, before relocation. -/
def image : Mem := (filePhdrs f).foldl (mapSegment f (atZero f)) fun _ ↦ 0

/-- The byte of the slot is part of a page that is mapped. -/
def Covered (x : UInt32) : Prop :=
  ∃ p ∈ filePhdrs f, Mapped (atZero f) p ∧
    InBlock (segmentAddr (atZero f) p) (segmentLen (atZero f) p).toNat x
  deriving Decidable

/-- All of `n` bytes are. -/
def CoveredBlock (a : UInt32) (n : ℕ) : Prop := ∀ k < n, Covered f (a + .ofNat k)

instance (a : UInt32) (n : ℕ) : Decidable (CoveredBlock f a n) :=
  inferInstanceAs (Decidable (∀ k < n, _))

/-! ## Dynamic section and tables -/

/-- The program header of the dynamic section; without one, a header of zeros. -/
def dynamicPhdr : Phdr := ((filePhdrs f).find? (·.type = ptDynamic)).getD ⟨0, 0, 0, 0, 0, 0⟩

/-- The number of bytes to read of the dynamic section. -/
def fileDynamicBytes : UInt32 :=
  if (dynamicPhdr f).filesz = 0 then neededDynamicBytes
  else atMost neededDynamicBytes (dynamicPhdr f).filesz

def fileDynamicRead : UInt32 := fileRead f (dynamicPhdr f).offset (fileDynamicBytes f)

/-- What the loader finds in the dynamic section. -/
def fileLib : LibDynamic :=
  parseDynamic (fileMem f) (min (fileDynamicRead f / 8).toNat (neededDynamicBytes / 8).toNat)
    (dynamicPhdr f).offset {}

/-- The offset in the file of an address of the library. -/
def fileOff (a : UInt32) : UInt32 := (vaddrToFileOff (filePhdrs f) a).getD 0

def strtabOff : UInt32 := fileOff f (fileLib f).strtab

/-- The number of bytes to read of the string table. -/
def fileStrtabBytes : UInt32 := atMost neededObjStrtabBytes (fileLib f).strsz

def fileStrtabRead : UInt32 := fileRead f (strtabOff f) (fileStrtabBytes f)

/-- The number of symbols that the hash table has. -/
def fileSymcount : UInt32 :=
  if (fileLib f).hash = 0 then 0 else loadWord (image f) ((fileLib f).hash - lowest f + 4)

def symtabOff : UInt32 := fileOff f (fileLib f).symtab

/-- The number of bytes to read of the symbol table. -/
def fileSymtabBytes : UInt32 :=
  if fileSymcount f = 0 then neededObjSymtabBytes
  else atMost neededObjSymtabBytes (fileSymcount f * (fileLib f).syment)

def fileSymtabRead : UInt32 := fileRead f (symtabOff f) (fileSymtabBytes f)

/-- The names of the libraries that this one needs, as far as the loader takes them. -/
def fileNeeded : List Name :=
  ((fileLib f).neededOffsets.take maxTransitiveNeeded).map fun off ↦
    if off < fileStrtabRead f then cstrTake (fileMem f) 63 (strtabOff f + off) else []

/-! ## All of the dynamic section

The loader looks at the first 256 bytes of the dynamic section only. -/

/-- The entries at `a` up to `DT_NULL`, `n` at most, each with its tag and its value. -/
def dynamicEntriesAt (m : Mem) : ℕ → UInt32 → List (UInt32 × UInt32)
  | 0, _ => []
  | n + 1, a =>
    if loadWord m a = dtNull then []
    else (loadWord m a, loadWord m (a + 4)) :: dynamicEntriesAt m n (a + 8)

/-- All of the dynamic section. -/
def dynamicEntries : List (UInt32 × UInt32) :=
  dynamicEntriesAt (fileMem f) ((dynamicPhdr f).filesz / 8).toNat (dynamicPhdr f).offset

/-- What the entries of all of it give. -/
def wholeDynamic : LibDynamic := (dynamicEntries f).foldl (fun d e ↦ d.set e.1 e.2) {}

/-- The names of all of the libraries that this one needs. -/
def neededNames : List Name :=
  ((dynamicEntries f).filter (·.1 = dtNeeded)).map fun e ↦
    cstrTake (fileMem f) addressSpace (fileOff f (wholeDynamic f).strtab + e.2)

/-! ## Relocation tables -/

/-- Where the entries of a relocation table are in the slot. -/
def relocTable (rel relsz relent : UInt32) : List UInt32 :=
  if rel = 0 ∨ relsz = 0 ∨ relent ≠ 8 then []
  else (List.range (relsz / 8).toNat).map fun k ↦ rel - lowest f + .ofNat (8 * k)

/-- Where all of the relocation entries of the library are in the slot. -/
def relocEntries : List UInt32 :=
  let lib := fileLib f
  relocTable f lib.rel lib.relsz lib.relent ++
    if lib.pltrel = dtRel then relocTable f lib.jmprel lib.pltrelsz lib.relent else []

/-- The target of the entry at `e` in the slot. -/
def relocTarget (e : UInt32) : UInt32 := (relAt (image f) e).offset - lowest f

/-! ## The entry in the registry -/

/-- The first definition of a version: number, hash and offset of the name. -/
def fileVerdef : UInt32 × UInt32 × UInt32 :=
  let lib := fileLib f
  if lib.verdef = 0 ∨ lib.verdefnum = 0 then (0, 0, 0)
  else
    let verdef := lib.verdef - lowest f
    let aux := loadWord (image f) (verdef + 12)
    ((loadHalf (image f) (verdef + 4)).toUInt32, loadWord (image f) (verdef + 8),
      if aux = 0 then 0 else loadWord (image f) (verdef + aux))

/-- The bias of the library in slot `i`. -/
def fileBias (i : ℕ) : UInt32 := slotBase i - lowest f

/-- The entry of the library when it has been loaded as object `i` under a name. -/
def fileObj (i : ℕ) (name : Name) : NeededObj :=
  let lib := fileLib f
  { name := name
    base := slotBase i
    bias := fileBias f i
    strtabRead := fileStrtabRead f
    symtabRead := fileSymtabRead f
    syment := lib.syment
    symcount := fileSymcount f
    gnuhash := if lib.gnuhash = 0 then 0 else lib.gnuhash + fileBias f i
    versym := if lib.versym = 0 ∨ fileSymcount f < 2 then 0 else lib.versym + fileBias f i
    verdefNdx := (fileVerdef f).1
    verdefHash := (fileVerdef f).2.1
    verdefNameOff := (fileVerdef f).2.2
    init := if lib.init = 0 then 0 else lib.init + fileBias f i
    initArray := if lib.initArray = 0 then 0 else lib.initArray + fileBias f i
    initArraysz := lib.initArraysz }

/-! ## Loadable libraries -/

/-- The header is one that the loader accepts, and the program headers are in the part of the file
that it reads. -/
structure HeaderLoadable : Prop where
  size : f.length < 4294967296
  magic : loadWord (fileMem f) 0 = 0x464c457f
  elfClass : fileMem f 4 = 1
  machine : loadHalf (fileMem f) 18 = emRiscv
  type : loadHalf (fileMem f) 16 = etDyn
  phentsize : phentsize (fileMem f) 0 = 32
  phoff : phoff (fileMem f) 0 ≠ 0
  phnum : phnum (fileMem f) 0 ≠ 0
  phdrs : 52 ≤ min f.length 256 ∧
    (Ld.phoff (fileMem f) 0).toNat + 32 * (Ld.phnum (fileMem f) 0).toNat ≤ min f.length 256

/-- The segments have a span that the loader accepts and fit the slot, and those with bytes in the
file are mapped. -/
structure SegmentsLoadable : Prop where
  accepted : (fileBounds f).Accepted
  fit : ∀ p ∈ filePhdrs f, SegmentFits (lowest f) p
  mapped : ∀ p ∈ filePhdrs f, p.type = ptLoad → p.filesz ≠ 0 → Mapped (atZero f) p

/-- The tables are there, and what is looked up in memory is in the mapped pages. -/
structure TablesLoadable : Prop where
  dynamic : (dynamicPhdr f).offset ≠ 0
  strtab : (fileLib f).strtab ≠ 0 ∧ vaddrToFileOff (filePhdrs f) (fileLib f).strtab ≠ none
  strsz : (fileLib f).strsz ≠ 0
  strtabRead : fileStrtabRead f ≠ 0
  symtab : (fileLib f).symtab ≠ 0 ∧ vaddrToFileOff (filePhdrs f) (fileLib f).symtab ≠ none
  syment : 16 ≤ (fileLib f).syment
  symtabRead : fileSymtabRead f ≠ 0
  hash : (fileLib f).hash ≠ 0 → CoveredBlock f ((fileLib f).hash - lowest f) 8
  verdef : (fileLib f).verdef ≠ 0 → (fileLib f).verdefnum ≠ 0 →
    CoveredBlock f ((fileLib f).verdef - lowest f) 16 ∧
      CoveredBlock f ((fileLib f).verdef - lowest f +
        loadWord (image f) ((fileLib f).verdef - lowest f + 12)) 4

/-- The relocation entries are in the mapped pages of the slot, their targets are in the slot, and
no target is an entry. -/
structure RelocsLoadable : Prop where
  entries : ∀ e ∈ relocEntries f, CoveredBlock f e 8 ∧ e.toNat + 8 ≤ slotBytes
  targets : ∀ e ∈ relocEntries f, (relocTarget f e).toNat + 4 ≤ slotBytes
  apart : ∀ e ∈ relocEntries f, ∀ e' ∈ relocEntries f,
    4 ≤ e' - relocTarget f e ∧ 8 ≤ relocTarget f e - e'

/-- A library that the loader loads and registers as it is. -/
structure Loadable : Prop where
  header : HeaderLoadable f
  segments : SegmentsLoadable f
  tables : TablesLoadable f
  relocs : RelocsLoadable f

end File

end CaribeOS.Ld
