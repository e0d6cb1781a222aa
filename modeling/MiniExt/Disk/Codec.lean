import MiniExt.Host
import MiniExt.Lib.Bytes
import MiniExt.Lib.Loops

namespace MiniExt

open Lib

/-!
# Disk — the codecs

The image is one file: the superblock, the descriptor table, the inodes, the blocks.  Each
structure is stored in place, packed, at an offset computed from the geometry.  The programs
of this file store and read them through `lseek`, `read_while` and `write_while`.

* `DeviceCall`, `DeviceProg` — the calls on the image file, and programs over them;
* `sizeofSuperblock`, `calculateOffset`, `blockOffset`, … — the layout;
* `Device.readSuperBlock`, `Device.writeBlock`, … — the codecs, call by call;
* `ImageFile`, `fileHandler` — a file whose transfers are complete.
-/

/-! ### The interface -/

/-- The calls on the image file: `lseek` from the start, `read_while`, `write_while`. -/
inductive DeviceCall where
  | lseek (offset : Int)
  | readWhile (count : Nat)
  | writeWhile (bytes : List UInt8)

/-- The answers: the bytes read, `none` and `false` for a returned `-1`. -/
def DeviceCall.Answer : DeviceCall → Type
  | .lseek _ => Unit
  | .readWhile _ => Option (List UInt8)
  | .writeWhile _ => Bool

/-- The device behind the codecs. -/
def device : Interface := ⟨DeviceCall, DeviceCall.Answer⟩

/-- A program on the image file. -/
abbrev DeviceProg (α : Type) := Prog device Stop α

namespace Device

/-- Make one call on the image file. -/
def ask (c : DeviceCall) : DeviceProg c.Answer := Prog.perform (I := device) c

/-- `lseek` from the beginning of the file. -/
def lseek (offset : Int) : DeviceProg Unit := ask (.lseek offset)

/-- `read_while` of so many bytes. -/
def readWhile (count : Nat) : DeviceProg (Option (List UInt8)) := ask (.readWhile count)

/-- `write_while` of bytes that are there. -/
def writeAll (bytes : List UInt8) : DeviceProg Bool := ask (.writeWhile bytes)

/-- `write_while` of the first `count` bytes of a buffer, which may be too short for that. -/
def writeWhile (buffer : List UInt8) (count : Nat) : DeviceProg Bool :=
  if buffer.length < count then .halt .memoryError else writeAll (buffer.take count)

end Device

/-! ### The layout -/

/-- `sizeof(struct fs_info)`: seven 16-bit numbers, packed. -/
def sizeofFsInfo : Nat := 14

/-- `sizeof(struct inode_info)`: two 16-bit numbers and a `bool`, packed. -/
def sizeofInodeInfo : Nat := 5

/-- `sizeof_superblock`. -/
def sizeofSuperblock (info : FsInfo) : Nat := sizeofFsInfo + info.inodesCount + info.blocksCount

/-- The size of the descriptor table, as a `uint16_t`. -/
def sizeofDescriptorsTable (info : FsInfo) : Nat := info.descriptorsCount * (1 + 2 + 4) % 2 ^ 16

/-- `sizeof_inode`. -/
def sizeofInode (info : FsInfo) : Nat := sizeofInodeInfo + 2 * info.blocksCountInInode

/-- `calculate_offset`. -/
def calculateOffset (info : FsInfo) (inodeId : Nat) : Nat :=
  sizeofSuperblock info + sizeofDescriptorsTable info + inodeId * sizeofInode info

/-- The size of all inodes, as a `uint16_t`. -/
def sizeofInodesBlock (info : FsInfo) : Nat := info.inodesCount * sizeofInode info % 2 ^ 16

/-- Where the blocks start. -/
def blocksStart (info : FsInfo) : Nat :=
  sizeofSuperblock info + sizeofDescriptorsTable info + sizeofInodesBlock info

/-- Where a block starts.  The product is an `int`. -/
def blockOffset (info : FsInfo) (blockId : Nat) : Int :=
  blocksStart info + (blockId * info.blockSize : Int).bmod (2 ^ 32)

/-! ### Packed structures -/

/-- The bytes of `struct fs_info`. -/
def encodeFsInfo (info : FsInfo) : List UInt8 :=
  encodeArray 2 [info.inodesCount, info.blocksCount, info.blockSize, info.blocksCountInInode,
    info.maxPathLen, info.descriptorsCount, info.magic]

/-- `struct fs_info` from its bytes. -/
def decodeFsInfo (bytes : List UInt8) : FsInfo :=
  let field k := decodeLE ((bytes.drop (2 * k)).take 2)
  ⟨field 0, field 1, field 2, field 3, field 4, field 5, field 6⟩

/-- The bytes of `struct inode_info`. -/
def encodeInodeInfo (inode : Inode) : List UInt8 :=
  encodeLE 2 inode.id ++ encodeLE 2 inode.blocksCount ++ encodeBools [inode.isFile]

/-- An inode from its `inode_info` and its block list. -/
def decodeInode (info : FsInfo) (inodeInfo blockIds : List UInt8) : Inode where
  id := decodeLE (inodeInfo.take 2)
  blocksCount := decodeLE ((inodeInfo.drop 2).take 2)
  isFile := decodeBools (inodeInfo.drop 4) = [true]
  blockIds := decodeArray 2 info.blocksCountInInode blockIds

/-- The bytes of `struct block_info`. -/
def encodeBlockInfo (info : BlockInfo) : List UInt8 :=
  encodeLE 2 info.blockId ++ encodeLE 2 info.inodeId ++ encodeLE 1 info.recordsCount ++
    encodeLE 2 info.dataSize

/-- `struct block_info` from its bytes. -/
def decodeBlockInfo (bytes : List UInt8) : BlockInfo where
  blockId := decodeLE (bytes.take 2)
  inodeId := decodeLE ((bytes.drop 2).take 2)
  recordsCount := decodeLE ((bytes.drop 4).take 1)
  dataSize := decodeLE ((bytes.drop 5).take 2)

/-! ### The codecs -/

namespace Device

/-- `read_super_block`: the geometry, then masks of the lengths it gives. -/
def readSuperBlock : DeviceProg (Option Superblock) := do
  lseek 0
  match ← readWhile sizeofFsInfo with
  | none => return none
  | some bytes =>
    let info := decodeFsInfo bytes
    match ← readWhile info.inodesCount with
    | none => return none
    | some inodes =>
      match ← readWhile info.blocksCount with
      | none => return none
      | some blocks => return some ⟨info, decodeBools inodes, decodeBools blocks⟩

/-- `write_super_block`. -/
def writeSuperBlock (sb : Superblock) : DeviceProg Bool := do
  lseek 0
  if !(← writeWhile (encodeFsInfo sb.fsInfo) sizeofFsInfo) then return false
  else if !(← writeWhile (encodeBools sb.reservedInodesMask) sb.fsInfo.inodesCount) then
    return false
  else writeWhile (encodeBools sb.reservedBlocksMask) sb.fsInfo.blocksCount

/-- `read_descriptors_table`: the three arrays, one after the other. -/
def readDescriptorsTable (info : FsInfo) : DeviceProg (Option DescriptorsTable) := do
  lseek (sizeofSuperblock info)
  match ← readWhile info.descriptorsCount with
  | none => return none
  | some reserved =>
    match ← readWhile (2 * info.descriptorsCount) with
    | none => return none
    | some inodes =>
      match ← readWhile (4 * info.descriptorsCount) with
      | none => return none
      | some positions =>
        return some ⟨decodeBools reserved, decodeArray 2 info.descriptorsCount inodes,
          decodeArray 4 info.descriptorsCount positions⟩

/-- `write_descriptor_table`. -/
def writeDescriptorTable (info : FsInfo) (dt : DescriptorsTable) : DeviceProg Bool := do
  lseek (sizeofSuperblock info)
  if !(← writeWhile (encodeBools dt.reservedFd) info.descriptorsCount) then return false
  else if !(← writeWhile (encodeArray 2 dt.fdToInode) (2 * info.descriptorsCount)) then
    return false
  else writeWhile (encodeArray 4 dt.fdToPosition) (4 * info.descriptorsCount)

/-- `read_inode`. -/
def readInode (info : FsInfo) (inodeId : Nat) : DeviceProg (Option Inode) := do
  lseek (calculateOffset info inodeId)
  match ← readWhile sizeofInodeInfo with
  | none => return none
  | some inodeInfo =>
    match ← readWhile (2 * info.blocksCountInInode) with
    | none => return none
    | some blockIds => return some (decodeInode info inodeInfo blockIds)

/-- `write_inode`. -/
def writeInode (info : FsInfo) (inode : Inode) : DeviceProg Bool := do
  lseek (calculateOffset info inode.id)
  if !(← writeWhile (encodeInodeInfo inode) sizeofInodeInfo) then return false
  else writeWhile (encodeArray 2 inode.blockIds) (2 * info.blocksCountInInode)

/-- `read_block_record`. -/
def readBlockRecord (info : FsInfo) : DeviceProg (Option BlockRecord) := do
  match ← readWhile 2 with
  | none => return none
  | some inodeId =>
    match ← readWhile info.maxPathLen with
    | none => return none
    | some path => return some ⟨decodeLE inodeId, path⟩

/-- `write_block_record`. -/
def writeBlockRecord (info : FsInfo) (r : BlockRecord) : DeviceProg Bool := do
  if !(← writeWhile (encodeLE 2 r.inodeId) 2) then return false
  else writeWhile r.path info.maxPathLen

/-- The loop of `read_block` over the records. -/
def readRecords (info : FsInfo) : (count : Nat) → DeviceProg (Option (List BlockRecord))
  | 0 => return some []
  | count + 1 => do
    match ← readBlockRecord info with
    | none => return none
    | some r =>
      match ← readRecords info count with
      | none => return none
      | some rs => return some (r :: rs)

/-- The loop of `write_block` over the records. -/
def writeRecords (info : FsInfo) : (count : Nat) → List BlockRecord → DeviceProg Bool
  | 0, _ => return true
  | _ + 1, [] => .halt .memoryError
  | count + 1, r :: rs => do
    if !(← writeBlockRecord info r) then return false
    else writeRecords info count rs

/-- `read_block`.  A header that counts both records and data comes first.  The result of the
    read of the data is not checked, and nothing bounds its size. -/
def readBlock (info : FsInfo) (blockId : Nat) : DeviceProg ReadBlockResult := do
  lseek (blockOffset info blockId)
  match ← readWhile sizeofBlockInfo with
  | none => return .failed
  | some bytes =>
    let header := decodeBlockInfo bytes
    if header.recordsCount ≠ 0 ∧ header.dataSize ≠ 0 then return .mixed
    else if header.recordsCount ≠ 0 then
      match ← readRecords info header.recordsCount with
      | none => return .destructed
      | some rs => return .read ⟨header, some rs, Store.dataBuffer info []⟩
    else if header.dataSize ≠ 0 then
      if maxSizeOfData info < header.dataSize then .halt .memoryError
      else
        let data ← readWhile header.dataSize
        return .read ⟨header, none, Store.dataBuffer info (data.getD [])⟩
    else return .read ⟨header, none, Store.dataBuffer info []⟩

end Device

/-- What the caller of `read_block` gets: a block, `-1`, or nothing after a crash. -/
def ReadBlockResult.value : ReadBlockResult → DeviceProg (Option Block)
  | .read block => return some block
  | .failed => return none
  | .mixed | .destructed => .halt .memoryError

namespace Device

/-- `write_block`: the header is written first; a block that carries both records and data
    is rejected after that.  The buffer `data` is that of a live block, so the test
    `block->data != NULL` before its write holds. -/
def writeBlock (info : FsInfo) (block : Block) : DeviceProg WriteBlockResult := do
  lseek (blockOffset info block.info.blockId)
  if !(← writeWhile (encodeBlockInfo block.info) sizeofBlockInfo) then return .failed
  else if block.info.recordsCount ≠ 0 ∧ block.info.dataSize ≠ 0 then return .rejected
  else
    match block.records with
    | some rs =>
      let written ← writeRecords info block.info.recordsCount rs
      return if written then .stored else .destructed
    | none =>
      if block.info.dataSize = 0 then return .stored
      else
        let written ← writeWhile block.data (maxSizeOfData info)
        return if written then .stored else .failed

end Device

/-! ### Complete transfers -/

/-- The open image file. -/
structure ImageFile where
  bytes : List UInt8
  pos : Nat
  deriving DecidableEq, Repr

/-- A file whose transfers are complete.  `lseek` refuses a negative offset, and its result is
    not looked at.  A `read_while` past the end of the file does not come back: `read` goes on
    returning zero there. -/
def fileHandler : PartialHandler device ImageFile Stop
  | .lseek offset, f => some (.done (), if offset < 0 then f else { f with pos := offset.toNat })
  | .readWhile count, f =>
    if count ≤ (f.bytes.drop f.pos).length then
      some (.done (some ((f.bytes.drop f.pos).take count)), { f with pos := f.pos + count })
    else none
  | .writeWhile bytes, f =>
    some (.done true, ⟨writeAt 0 f.bytes f.pos bytes, f.pos + bytes.length⟩)

end MiniExt
