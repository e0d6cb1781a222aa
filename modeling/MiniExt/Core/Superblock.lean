import Mathlib.Algebra.Group.Nat.Defs
import MiniExt.Lib.FirstFit

namespace MiniExt

open Lib

/-!
# Core — the superblock

`fs_info` fixes the geometry of an image: how many inodes and blocks it has, how large a
block is, how many blocks one inode may list.  The superblock adds the two reservation
masks.  Sizes are computed by the C program in `size_t`, `uint32_t` and `uint8_t`; the
narrowing that each of them does is kept here.
-/

/-! ### Constants -/

/-- `buffer_length`, of the buffers that hold a path. -/
def bufferLength : Nat := 1024

/-- `command_buffer_lenght`, of the buffer that holds a line. -/
def commandBufferLength : Nat := 256

/-- `magic_number`. -/
def magicNumber : Nat := 0xFAF

/-- `ROOT_INODE_ID`. -/
def rootInodeId : Nat := 0

/-- `sizeof(struct block_info)`: two identifiers, a record count and a data size, packed. -/
def sizeofBlockInfo : Nat := 7

/-! ### Geometry -/

/-- The on-disk `fs_info`. -/
structure FsInfo where
  inodesCount : Nat
  blocksCount : Nat
  blockSize : Nat
  blocksCountInInode : Nat
  maxPathLen : Nat
  descriptorsCount : Nat
  magic : Nat
  deriving DecidableEq, Repr, Inhabited

/-- The geometry `init_super_block` writes, from the constants of `defines.h`. -/
def defaultFsInfo : FsInfo where
  inodesCount := 128
  blocksCount := 128
  blockSize := 128
  blocksCountInInode := 8
  maxPathLen := 16
  descriptorsCount := 16
  magic := magicNumber

/-- Bytes left in a block after its header, as a `size_t`. -/
def maxSizeOfData (info : FsInfo) : Nat :=
  (info.blockSize + 2 ^ 64 - sizeofBlockInfo) % 2 ^ 64

/-- `sizeof_block_record`: an inode number and a name field. -/
def sizeofBlockRecord (info : FsInfo) : Nat := 2 + info.maxPathLen

/-- How many records a directory may hold.  The cast to `uint8_t` applies to the
    difference, before the division. -/
def getMaxRecordsCount (info : FsInfo) : Nat :=
  maxSizeOfData info % 2 ^ 8 / sizeofBlockRecord info % 2 ^ 8

/-- Data bytes in one block, as a `uint32_t`. -/
def getMaxDataInBlock (info : FsInfo) : Nat := maxSizeOfData info % 2 ^ 32

/-- Data bytes in one file, as a `uint32_t`. -/
def getMaxDataSizeOfAllBlocks (info : FsInfo) : Nat :=
  getMaxDataInBlock info * info.blocksCountInInode % 2 ^ 32

/-- The default geometry has 128 inodes. -/
@[simp] theorem defaultFsInfo_inodesCount : defaultFsInfo.inodesCount = 128 := rfl

/-- The default geometry has 128 blocks. -/
@[simp] theorem defaultFsInfo_blocksCount : defaultFsInfo.blocksCount = 128 := rfl

/-- An inode of the default geometry lists 8 blocks. -/
@[simp] theorem defaultFsInfo_blocksCountInInode : defaultFsInfo.blocksCountInInode = 8 := rfl

/-- A name field of the default geometry has 16 bytes. -/
@[simp] theorem defaultFsInfo_maxPathLen : defaultFsInfo.maxPathLen = 16 := rfl

/-- The default geometry has 16 descriptors. -/
@[simp] theorem defaultFsInfo_descriptorsCount : defaultFsInfo.descriptorsCount = 16 := rfl

/-- The default geometry carries the magic number. -/
@[simp] theorem defaultFsInfo_magic : defaultFsInfo.magic = magicNumber := rfl

/-- A block of the default geometry has 128 bytes. -/
@[simp] theorem defaultFsInfo_blockSize : defaultFsInfo.blockSize = 128 := rfl

/-- 121 of these are for data. -/
@[simp] theorem maxSizeOfData_default : maxSizeOfData defaultFsInfo = 121 := rfl

/-- There is room for 6 records. -/
@[simp] theorem getMaxRecordsCount_default : getMaxRecordsCount defaultFsInfo = 6 := rfl

/-- A read takes 121 bytes of a block. -/
@[simp] theorem getMaxDataInBlock_default : getMaxDataInBlock defaultFsInfo = 121 := rfl

/-- A file has at most 968 bytes. -/
@[simp] theorem getMaxDataSizeOfAllBlocks_default :
    getMaxDataSizeOfAllBlocks defaultFsInfo = 968 := rfl

/-! ### The superblock and its masks -/

/-- The superblock: the geometry and the two reservation masks. -/
structure Superblock where
  fsInfo : FsInfo
  reservedInodesMask : List Bool
  reservedBlocksMask : List Bool
  deriving DecidableEq, Repr, Inhabited

/-- `init_super_block`: the default geometry, nothing reserved. -/
def initSuperBlock : Superblock where
  fsInfo := defaultFsInfo
  reservedInodesMask := List.replicate defaultFsInfo.inodesCount false
  reservedBlocksMask := List.replicate defaultFsInfo.blocksCount false

/-- Reserve the first free inode; `inodes_count` when there is none. -/
def reserveInode (sb : Superblock) : Nat × Superblock :=
  match firstFree sb.reservedInodesMask with
  | some id => (id, { sb with reservedInodesMask := sb.reservedInodesMask.set id true })
  | none => (sb.fsInfo.inodesCount, sb)

/-- Release an inode; `inodes_count` when it was not reserved. -/
def freeInode (sb : Superblock) (inodeId : Nat) : Nat × Superblock :=
  if sb.reservedInodesMask[inodeId]? = some true then
    (inodeId, { sb with reservedInodesMask := sb.reservedInodesMask.set inodeId false })
  else (sb.fsInfo.inodesCount, sb)

/-- Reserve the first free block; `blocks_count` when there is none. -/
def reserveBlock (sb : Superblock) : Nat × Superblock :=
  match firstFree sb.reservedBlocksMask with
  | some id => (id, { sb with reservedBlocksMask := sb.reservedBlocksMask.set id true })
  | none => (sb.fsInfo.blocksCount, sb)

/-- Release a block; `blocks_count` when it was not reserved. -/
def freeBlock (sb : Superblock) (blockId : Nat) : Nat × Superblock :=
  if sb.reservedBlocksMask[blockId]? = some true then
    (blockId, { sb with reservedBlocksMask := sb.reservedBlocksMask.set blockId false })
  else (sb.fsInfo.blocksCount, sb)

/-! The geometry is never written. -/

/-- `reserve_inode` keeps the geometry. -/
@[simp] theorem fsInfo_reserveInode (sb : Superblock) :
    (reserveInode sb).2.fsInfo = sb.fsInfo := by
  unfold reserveInode
  split <;> rfl

/-- `reserve_block` keeps the geometry. -/
@[simp] theorem fsInfo_reserveBlock (sb : Superblock) :
    (reserveBlock sb).2.fsInfo = sb.fsInfo := by
  unfold reserveBlock
  split <;> rfl

/-- `free_inode` keeps the geometry. -/
@[simp] theorem fsInfo_freeInode (sb : Superblock) (inodeId : Nat) :
    (freeInode sb inodeId).2.fsInfo = sb.fsInfo := by
  unfold freeInode
  split <;> rfl

/-- `free_block` keeps the geometry. -/
@[simp] theorem fsInfo_freeBlock (sb : Superblock) (blockId : Nat) :
    (freeBlock sb blockId).2.fsInfo = sb.fsInfo := by
  unfold freeBlock
  split <;> rfl

end MiniExt
