import CaribeOS.Hfs.UpdateScript

/-!
# The script that creates a file in an image

`scripts/hfs-create-root-file.py` puts a new file into the root folder of an HFS+ image, with the
functions of `update-hfs-kernel.py`. It reserves a run of free blocks and writes the payload to it,
counts the file in the volume header, and adds a record to the first leaf of the catalog: the record
goes to the free space, and the offset table grows by one entry.

The bitmap, the data and the volume header are written before the leaf is looked at, and before the
name is checked.
-/

namespace CaribeOS.HfsScript

open FileScript Extents

def align2 (value : ℕ) : ℕ := (value + 1) / 2 * 2

-- Whether a name has such a character is decided along the name, not over all characters.
attribute [local instance (high)] List.decidableBEx

/-- `utf16be_name`. -/
def utf16beName (name : List Char) : Except HfsError Buf :=
  if ∃ ch ∈ name, ch.toNat = 0 ∨ 0x7f < ch.toNat then .error (.notAscii name)
  else .ok (Buf.ofList (name.flatMap fun ch ↦ [0, .ofNat ch.toNat]))

/-- The data of a file record. -/
def fileRecordData (hfs : HFSPlusImage) (fileId payloadSize : ℕ) (extent : ℕ × ℕ) :
    Except HfsError Buf := do
  let data := Buf.zeros 248
  let data ← putBe16 data 0 2
  let data ← putBe32 data 8 fileId
  let data ← putBe32 data 32 0
  let data ← putBe32 data 36 0
  let data ← putBe32 data 40 0o100755
  let data ← putBe64 data 88 payloadSize
  let data ← putBe32 data (88 + 8) 0
  let data ← putBe32 data (88 + 12) (ceilDiv payloadSize hfs.blockSize)
  let data ← putBe32 data (88 + 16) extent.1
  putBe32 data (88 + 20) extent.2

/-- `build_catalog_file_record`. -/
def buildCatalogFileRecord (hfs : HFSPlusImage) (name : List Char) (fileId payloadSize : ℕ)
    (extent : ℕ × ℕ) : Except HfsError Buf := do
  let nameBytes ← utf16beName name
  let keyLen ← putBe16 (Buf.zeros 2) 0 (4 + 2 + nameBytes.size)
  let parent ← putBe32 (Buf.zeros 4) 0 2
  let nameLen ← putBe16 (Buf.zeros 2) 0 name.length
  let data ← fileRecordData hfs fileId payloadSize extent
  let record := (((keyLen.append parent).append nameLen).append nameBytes).append data
  pure (if record.size % 2 ≠ 0 then record.append (Buf.zeros 1) else record)

/-- `buf[lo:hi] = data`. -/
def splice (buf : Buf) (lo hi : ℕ) (data : Buf) : Buf :=
  ((buf.slice 0 lo).append data).append (buf.slice hi (buf.size - hi))

/-- The new record goes to the free space of the leaf. -/
def insertRecord (hfs : HFSPlusImage) (node : Buf) (name : List Char) (fileId payloadSize : ℕ)
    (extent : ℕ × ℕ) : Except HfsError Buf := do
  if node.size ≤ 8 then .error .indexError
  else if node.byte 8 ≠ 255 then .error .notLeaf
  else do
    let records ← be16 node 10
    let oldIndex : ℤ := hfs.nodeSize - 2 * (records + 1)
    let table ← (List.range (records + 1)).mapM fun (i : ℕ) ↦ be16 node (oldIndex + i * 2)
    let freeOff := table.headD 0
    let newRecord ← buildCatalogFileRecord hfs name fileId payloadSize extent
    let newOff := align2 freeOff
    let newFree := newOff + newRecord.size
    let newIndex : ℤ := hfs.nodeSize - 2 * (records + 2)
    if newIndex < newFree then .error .noRoom
    else do
      let node := splice node newOff (newOff + newRecord.size) newRecord
      let node ← putBe16 node 10 (records + 1)
      let newTable := newFree :: newOff :: table.tail
      newTable.zipIdx.foldlM (fun node (e : ℕ × ℕ) ↦ putBe16 node (newIndex + e.2 * 2) e.1) node

/-- The volume header with the new file counted, and the ID of the file. -/
def countFile (vh : Buf) : Except HfsError (Buf × ℕ) := do
  let fileId ← be32 vh 60
  let fileId := if fileId < 20 then 20 else fileId
  let fileCount ← be32 vh 32
  let vh ← putBe32 vh 32 (fileCount + 1)
  let vh ← putBe32 vh 60 (fileId + 1)
  pure (vh, fileId)

/-- `path.strip("/")`. -/
def stripSlashes (path : List Char) : List Char :=
  ((path.dropWhile (· = '/')).reverse.dropWhile (· = '/')).reverse

/-- What `create_root_file` has found out before its first write: the mounted volume, the name of the
file, the start of the free run and the new bitmap. -/
structure Reserved where
  hfs : HFSPlusImage
  name : List Char
  start : ℕ
  bitmap : Buf

/-- The first part of `create_root_file`, up to the first write. -/
def reserve (path : List Char) (payloadSize : ℕ) (img : Buf) : Except HfsError Reserved := do
  let hfs ← mount img
  let name := stripSlashes path
  if '/' ∈ name ∨ name = [] then .error .notInRoot
  else do
    match findFile hfs img ('/' :: name) with
    | .ok _ => .error (.alreadyExists name)
    | .error e =>
      if ¬e.isRuntimeError then .error e
      else do
        let blocksNeeded := ceilDiv payloadSize hfs.blockSize
        let bitmap ← readAllocationBitmap hfs img
        let start ← findFreeRun hfs bitmap blocksNeeded
        let bitmap ← bitmapSetAll bitmap (List.range' start blocksNeeded) true
        pure ⟨hfs, name, start, bitmap⟩

/-- The payload and zeros behind it, from block `start` on. -/
def putPayload (hfs : HFSPlusImage) (start : ℕ) (payload : Buf) : Script HfsError Unit := do
  Script.put (start * hfs.blockSize) payload
  let padding := ceilDiv payload.size hfs.blockSize * hfs.blockSize - payload.size
  if padding ≠ 0 then
    Script.put (start * hfs.blockSize + payload.size) (Buf.zeros (min padding hfs.blockSize))
  else pure ()

/-- The part of `create_root_file` after the data: the file is counted in the volume header and its
record put into the first leaf. -/
def addRecord (hfs : HFSPlusImage) (name : List Char) (payloadSize : ℕ) (extent : ℕ × ℕ) :
    Script HfsError Unit := do
  let counted ← .ask fun img ↦ countFile (img.slice 1024 512)
  Script.put 1024 counted.1
  let nodeOff := hfs.firstLeaf * hfs.nodeSize
  let node ← .ask fun img ↦ do
    let node ← readFork hfs.blockSize hfs.catalog img nodeOff hfs.nodeSize
    insertRecord hfs node name counted.2 payloadSize extent
  writeFork hfs.blockSize hfs.catalog nodeOff node

/-- `create_root_file`. -/
def createRootFile (path : List Char) (payload : Buf) : Script HfsError Unit := do
  let reserved ← .ask (reserve path payload.size)
  let hfs := reserved.hfs
  let blocksNeeded := ceilDiv payload.size hfs.blockSize
  writeAllocationBitmapAndHeader hfs reserved.bitmap (hfs.freeBlocks - blocksNeeded)
  putPayload hfs reserved.start payload
  addRecord hfs reserved.name payload.size (reserved.start, blocksNeeded)

end CaribeOS.HfsScript
