import CaribeOS.Foundation.Bitmap
import CaribeOS.Foundation.Extents
import CaribeOS.Foundation.FileScript
import CaribeOS.Foundation.Parts
import CaribeOS.Hfs.Scan

/-!
# The script that replaces a file of an image

`scripts/update-hfs-kernel.py` mounts an HFS+ image, looks up a file by its path and replaces its
contents. A payload that fits is written over the old one. A larger one goes to a run of free blocks:
the bitmap and the number of free blocks are updated, and the catalog record is rewritten at the end.

Functions that only read are functions of the image; `write_at` and what uses it are scripts. Every
exception is an error, those of `struct` and of list indices included: a number that does not fit
into its field, an offset outside a buffer. Offsets of `struct` can be negative and count from the
end of the buffer then (`locate`).
-/

namespace CaribeOS.HfsScript

open FileScript Extents

/-! ## Errors -/

/-- What a script can raise: an exception of Python itself, or a `RuntimeError` of its own. -/
inductive HfsError where
  | structError
  | indexError
  | zeroDivisionError
  | badSignature (sig : ℕ)
  | extentNotFound
  | noBitmap
  | noFreeRun (blocksNeeded : ℕ)
  | componentNotFound (path part : List Char)
  | notFile (path : List Char)
  | notFolder (path part : List Char)
  | emptyPath
  | exceedsAllocation (path : List Char) (size alloc : ℕ)
  | notInRoot
  | alreadyExists (name : List Char)
  | notLeaf
  | noRoom
  | notAscii (name : List Char)
deriving DecidableEq

/-- The errors that are a `RuntimeError`. -/
def HfsError.isRuntimeError : HfsError → Bool
  | .structError | .indexError | .zeroDivisionError => false
  | _ => true

/-! ## Numbers in buffers -/

/-- Where `struct` finds `n` bytes at offset `off`. -/
def locate (buf : Buf) (off : ℤ) (n : ℕ) : Except HfsError ℕ :=
  if 0 ≤ off then
    if off.toNat + n ≤ buf.size then .ok off.toNat else .error .structError
  else
    if off + n ≤ 0 ∧ 0 ≤ off + buf.size then .ok (off + buf.size).toNat else .error .structError

def be16 (buf : Buf) (off : ℤ) : Except HfsError ℕ :=
  (locate buf off 2).map fun o ↦ (CaribeOS.be16 buf.byte o).toNat

def be32 (buf : Buf) (off : ℤ) : Except HfsError ℕ :=
  (locate buf off 4).map fun o ↦ (CaribeOS.be32 buf.byte o).toNat

def be64 (buf : Buf) (off : ℤ) : Except HfsError ℕ :=
  (locate buf off 8).map fun o ↦ (CaribeOS.be64 buf.byte o).toNat

/-- The bytes of `value` as a big-endian number of `n` bytes, at offset `o` of a buffer. -/
def putBytes (b : ℕ → UInt8) (o n value : ℕ) (k : ℕ) : UInt8 :=
  if o ≤ k ∧ k < o + n then .ofNat (value / 256 ^ (o + n - 1 - k)) else b k

/-- `struct.pack_into` for an unsigned number of `n` bytes. -/
def packInto (n : ℕ) (buf : Buf) (off : ℤ) (value : ℤ) : Except HfsError Buf :=
  if 0 ≤ value ∧ value < 256 ^ n then
    (locate buf off n).map fun o ↦ { buf with byte := putBytes buf.byte o n value.toNat }
  else .error .structError

def putBe16 (buf : Buf) (off value : ℤ) : Except HfsError Buf := packInto 2 buf off value

def putBe32 (buf : Buf) (off value : ℤ) : Except HfsError Buf := packInto 4 buf off value

def putBe64 (buf : Buf) (off value : ℤ) : Except HfsError Buf := packInto 8 buf off value

def ceilDiv (value divisor : ℕ) : ℕ := (value + divisor - 1) / divisor

/-- The character of a name for a code. -/
def asciiChar (code : ℕ) : Char := if 0 < code ∧ code < 128 then Char.ofNat code else '?'

/-- `ascii_name`. -/
def asciiName (buf : Buf) (off : ℤ) (chars : ℕ) : Except HfsError (List Char) :=
  (List.range chars).mapM fun (i : ℕ) ↦ (be16 buf (off + i * 2)).map asciiChar

/-! ## Forks -/

/-- `Fork`. -/
structure Fork where
  size : ℕ
  extents : List (ℕ × ℕ)

def Fork.allocatedBlocks (fork : Fork) : ℕ := (fork.extents.map Prod.snd).sum

/-- `fork_from`. -/
def forkFrom (buf : Buf) (off : ℤ) : Except HfsError Fork := do
  let size ← be64 buf off
  let extents ← (List.range 8).mapM fun (i : ℕ) ↦ do
    let start ← be32 buf (off + 16 + i * 8)
    let count ← be32 buf (off + 20 + i * 8)
    pure (start, count)
  pure ⟨size, extents.filter (·.2 ≠ 0)⟩

/-- The loop of `read_fork`. Every round reads at least one byte, so `size` bounds the rounds. -/
def readForkLoop (blockSize : ℕ) (fork : Fork) (img : Buf) : ℕ → ℕ → ℕ → Buf → Except HfsError Buf
  | 0, _, _, out => .ok out
  | fuel + 1, off, size, out =>
    if size = 0 then .ok out
    else if blockSize = 0 then .error .zeroDivisionError
    else
      let logicalBlock := off / blockSize
      let inBlock := off % blockSize
      match blockAt fork.extents logicalBlock with
      | none => .error .extentNotFound
      | some physBlock =>
        let chunk := min size (blockSize - inBlock)
        readForkLoop blockSize fork img fuel (off + chunk) (size - chunk)
          (out.append (img.slice (physBlock * blockSize + inBlock) chunk))

/-- `read_fork`. -/
def readFork (blockSize : ℕ) (fork : Fork) (img : Buf) (off size : ℕ) : Except HfsError Buf :=
  readForkLoop blockSize fork img size off size (Buf.zeros 0)

/-- The loop of `write_fork`. -/
def writeForkLoop (blockSize : ℕ) (fork : Fork) (data : Buf) : ℕ → ℕ → ℕ → ℕ → Script HfsError Unit
  | 0, _, _, _ => pure ()
  | fuel + 1, off, pos, size =>
    if size = 0 then pure ()
    else if blockSize = 0 then .ask fun _ ↦ .error .zeroDivisionError
    else
      let logicalBlock := off / blockSize
      let inBlock := off % blockSize
      match blockAt fork.extents logicalBlock with
      | none => .ask fun _ ↦ .error .extentNotFound
      | some physBlock => do
        let chunk := min size (blockSize - inBlock)
        Script.put (physBlock * blockSize + inBlock) (data.slice pos chunk)
        writeForkLoop blockSize fork data fuel (off + chunk) (pos + chunk) (size - chunk)

/-- `write_fork`. -/
def writeFork (blockSize : ℕ) (fork : Fork) (off : ℕ) (data : Buf) : Script HfsError Unit :=
  writeForkLoop blockSize fork data data.size off 0 data.size

/-! ## Mounting -/

/-- `HFSPlusImage`, mounted. -/
structure HFSPlusImage where
  blockSize : ℕ
  totalBlocks : ℕ
  freeBlocks : ℕ
  allocation : Fork
  catalog : Fork
  nodeSize : ℕ
  firstLeaf : ℕ
  lastLeaf : ℕ
  totalNodes : ℕ

/-- `mount`. -/
def mount (img : Buf) : Except HfsError HFSPlusImage := do
  let vh := img.slice 1024 512
  let sig ← be16 vh 0
  if sig ≠ 0x482b ∧ sig ≠ 0x4858 then .error (.badSignature sig) else do
  let blockSize ← be32 vh 40
  let totalBlocks ← be32 vh 44
  let freeBlocks ← be32 vh 48
  let allocation ← forkFrom vh 112
  let catalog ← forkFrom vh 272
  let node0 ← readFork blockSize catalog img 0 4096
  let firstLeaf ← be32 node0 (14 + 10)
  let lastLeaf ← be32 node0 (14 + 14)
  let nodeSize ← be16 node0 (14 + 18)
  let totalNodes ← be32 node0 (14 + 22)
  let nodeSize := if nodeSize = 0 then 4096 else nodeSize
  let noLeaves : Bool := firstLeaf = 0 ∨ lastLeaf = 0 ∨ lastLeaf < firstLeaf
  pure {
    blockSize, totalBlocks, freeBlocks, allocation, catalog, nodeSize, totalNodes
    firstLeaf := if noLeaves then 1 else firstLeaf
    lastLeaf := if noLeaves then max 1 (totalNodes - 1) else lastLeaf }

/-! ## The bitmap -/

/-- `read_allocation_bitmap`. -/
def readAllocationBitmap (hfs : HFSPlusImage) (img : Buf) : Except HfsError Buf :=
  if hfs.allocation.size = 0 then .error .noBitmap
  else readFork hfs.blockSize hfs.allocation img 0 hfs.allocation.size

/-- `bitmap_is_used`. -/
def bitmapIsUsed (bitmap : Buf) (block : ℕ) : Except HfsError Bool :=
  if block / 8 < bitmap.size then .ok (Bitmap.getBit bitmap.byte block) else .error .indexError

/-- `bitmap_set_used`. -/
def bitmapSetUsed (bitmap : Buf) (block : ℕ) (used : Bool) : Except HfsError Buf :=
  if block / 8 < bitmap.size then .ok { bitmap with byte := Bitmap.setBit bitmap.byte block used }
  else .error .indexError

/-- `bitmap_set_used` for the blocks of a list. -/
def bitmapSetAll (bitmap : Buf) (blocks : List ℕ) (used : Bool) : Except HfsError Buf :=
  blocks.foldlM (fun bitmap block ↦ bitmapSetUsed bitmap block used) bitmap

/-- The loop of `find_free_run` over the blocks `blocks`, with the run that has been found so far. -/
def findFreeRunLoop (bitmap : Buf) (blocksNeeded : ℕ) : List ℕ → Option ℕ → ℕ → Except HfsError ℕ
  | [], _, _ => .error (.noFreeRun blocksNeeded)
  | block :: blocks, runStart, runLen => do
    let used ← bitmapIsUsed bitmap block
    if used then findFreeRunLoop bitmap blocksNeeded blocks none 0
    else
      let start := runStart.getD block
      let len := if runStart.isNone then 1 else runLen + 1
      if blocksNeeded ≤ len then pure start
      else findFreeRunLoop bitmap blocksNeeded blocks (some start) len

/-- `find_free_run`. -/
def findFreeRun (hfs : HFSPlusImage) (bitmap : Buf) (blocksNeeded : ℕ) : Except HfsError ℕ :=
  findFreeRunLoop bitmap blocksNeeded (List.range hfs.totalBlocks) none 0

/-- `write_allocation_bitmap_and_header`. -/
def writeAllocationBitmapAndHeader (hfs : HFSPlusImage) (bitmap : Buf) (freeBlocks : ℤ) :
    Script HfsError Unit := do
  let vh ← .ask fun img ↦ putBe32 (img.slice 1024 512) 48 freeBlocks
  Script.put 1024 vh
  writeFork hfs.blockSize hfs.allocation 0 bitmap

/-! ## The catalog -/

/-- What `scan_child` returns. -/
structure CatalogRec where
  nodeId : ℕ
  node : Buf
  nodeOff : ℕ
  dataOff : ℕ
  recordType : ℕ

section Scan

variable (node : Buf) (parent : ℕ) (target : List Char)

/-- One turn of the record loop of `scan_child`: the offset of the data and the record type, if the
record is the one asked for. -/
def scanRec (recOff : ℕ) : Except HfsError (Option (ℕ × ℕ)) := do
  let keyLen ← be16 node recOff
  let recParent ← be32 node (recOff + 2)
  let nameLen ← be16 node (recOff + 6)
  let name ← asciiName node (recOff + 8) nameLen
  let dataOff := recOff + 2 + keyLen
  if recParent ≠ parent ∨ name ≠ target then pure none
  else do
    let recordType ← be16 node dataOff
    pure (some (dataOff, recordType))

/-- The record loop, over the entries `recs` of the offset table from `index` on. -/
def scanRecs (index : ℤ) : List ℕ → Except HfsError (Option (ℕ × ℕ))
  | [] => .ok none
  | r :: recs => do
    let recOff ← be16 node (index + r * 2)
    match ← scanRec node parent target recOff with
    | some found => pure (some found)
    | none => scanRecs index recs

end Scan

/-- The node loop of `scan_child`. -/
def scanNodes (hfs : HFSPlusImage) (img : Buf) (parent : ℕ) (target : List Char) :
    List ℕ → Except HfsError (Option CatalogRec)
  | [] => .ok none
  | nodeId :: nodes => do
    let nodeOff := nodeId * hfs.nodeSize
    let node ← readFork hfs.blockSize hfs.catalog img nodeOff hfs.nodeSize
    if node.size ≤ 8 then .error .indexError
    else if node.byte 8 ≠ 255 then scanNodes hfs img parent target nodes
    else do
      let records ← be16 node 10
      let index : ℤ := hfs.nodeSize - 2 * (records + 1)
      match ← scanRecs node parent target index (List.range records) with
      | some (dataOff, recordType) => pure (some ⟨nodeId, node, nodeOff, dataOff, recordType⟩)
      | none => scanNodes hfs img parent target nodes

/-- `scan_child`. -/
def scanChild (hfs : HFSPlusImage) (img : Buf) (parent : ℕ) (target : List Char) :
    Except HfsError (Option CatalogRec) :=
  scanNodes hfs img parent target (List.range' hfs.firstLeaf (hfs.lastLeaf + 1 - hfs.firstLeaf))

/-- The loop of `find_file` over the components of `path`, from the folder `parent` on. -/
def findFileLoop (hfs : HFSPlusImage) (img : Buf) (path : List Char) :
    ℕ → List (List Char) → Except HfsError CatalogRec
  | _, [] => .error .emptyPath
  | parent, part :: parts => do
    match ← scanChild hfs img parent part with
    | none => .error (.componentNotFound path part)
    | some found =>
      if parts = [] then
        if found.recordType ≠ 2 then .error (.notFile path) else pure found
      else if found.recordType ≠ 1 then .error (.notFolder path part)
      else do
        let parent ← be32 found.node (found.dataOff + 8)
        findFileLoop hfs img path parent parts

/-- `find_file`. -/
def findFile (hfs : HFSPlusImage) (img : Buf) (path : List Char) : Except HfsError CatalogRec :=
  findFileLoop hfs img path 2 (path.parts '/')

/-! ## Replacing a file -/

/-- The fork fields of a file record: the size, the number of blocks, eight empty extents and then
those of the fork. -/
def putFork (node : Buf) (forkOff size blocks : ℕ) (extents : List (ℕ × ℕ)) :
    Except HfsError Buf := do
  let node ← putBe64 node forkOff size
  let node ← putBe32 node (forkOff + 12) blocks
  let node ← (List.range 8).foldlM (fun node (i : ℕ) ↦ do
    let node ← putBe32 node (forkOff + 16 + i * 8) 0
    putBe32 node (forkOff + 20 + i * 8) 0) node
  (extents.take 8).zipIdx.foldlM (fun node (e : (ℕ × ℕ) × ℕ) ↦ do
    let node ← putBe32 node (forkOff + 16 + e.2 * 8) e.1.1
    putBe32 node (forkOff + 20 + e.2 * 8) e.1.2) node

/-- The part of `replace_file` that sees to it that the payload fits: if it does not, blocks are
reserved for it and those of the old fork released. -/
def growFork (hfs : HFSPlusImage) (path : List Char) (payload : Buf) (allowGrow : Bool)
    (fork : Fork) : Script HfsError Fork :=
  if payload.size ≤ fork.allocatedBlocks * hfs.blockSize then pure fork
  else if ¬allowGrow then
    .ask fun _ ↦ .error
      (.exceedsAllocation path payload.size (fork.allocatedBlocks * hfs.blockSize))
  else do
    let requiredBlocks := ceilDiv payload.size hfs.blockSize
    let bitmap ← .ask fun img ↦ readAllocationBitmap hfs img
    let newStart ← .ask fun _ ↦ findFreeRun hfs bitmap requiredBlocks
    let bitmap ← .ask fun _ ↦ bitmapSetAll bitmap (List.range' newStart requiredBlocks) true
    let bitmap ← .ask fun _ ↦ bitmapSetAll bitmap (blocks fork.extents) false
    writeAllocationBitmapAndHeader hfs bitmap
      (hfs.freeBlocks + fork.allocatedBlocks - requiredBlocks)
    pure ⟨payload.size, [(newStart, requiredBlocks)]⟩

/-- Zeros behind the payload, up to the size of a block. -/
def padPayload (hfs : HFSPlusImage) (payload : Buf) (fork : Fork) (alloc : ℕ) :
    Script HfsError Unit :=
  if payload.size < alloc then
    writeFork hfs.blockSize fork payload.size (Buf.zeros (min hfs.blockSize (alloc - payload.size)))
  else pure ()

/-- The part of `replace_file` after the fork is known: the payload, zeros behind it, and the record
in the catalog. -/
def storePayload (hfs : HFSPlusImage) (payload : Buf) (found : CatalogRec) (fork : Fork) :
    Script HfsError ℕ := do
  let alloc := fork.allocatedBlocks * hfs.blockSize
  writeFork hfs.blockSize fork 0 payload
  padPayload hfs payload fork alloc
  let node ← .ask fun _ ↦ putFork found.node (found.dataOff + 88) payload.size
    (ceilDiv payload.size hfs.blockSize) fork.extents
  writeFork hfs.blockSize hfs.catalog found.nodeOff node
  pure alloc

/-- `replace_file`. -/
def replaceFile (hfs : HFSPlusImage) (path : List Char) (payload : Buf) (allowGrow : Bool) :
    Script HfsError ℕ := do
  let found ← .ask fun img ↦ findFile hfs img path
  let fork ← .ask fun _ ↦ forkFrom found.node (found.dataOff + 88)
  let fork ← growFork hfs path payload allowGrow fork
  storePayload hfs payload found fork

/-- The run of the script: mount, then replace. -/
def updateImage (path : List Char) (payload : Buf) (allowGrow : Bool) : Script HfsError ℕ := do
  let hfs ← .ask mount
  replaceFile hfs path payload allowGrow

end CaribeOS.HfsScript
