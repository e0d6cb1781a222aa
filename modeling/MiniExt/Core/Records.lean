import MiniExt.Core.Superblock

namespace MiniExt

/-!
# Core — descriptor table, inodes and blocks

The structures the program holds in memory between a read and a write of the image.
Numbers are natural numbers; the fixed widths of the C fields matter only where the
program narrows a value, and there the narrowing is written out.
-/

/-! ### The descriptor table -/

/-- Three parallel arrays of `descriptors_count` entries. -/
structure DescriptorsTable where
  reservedFd : List Bool
  fdToInode : List Nat
  fdToPosition : List Nat
  deriving DecidableEq, Repr, Inhabited

/-- `init_descriptors_table`: every slot free and zero. -/
def initDescriptorsTable (info : FsInfo) : DescriptorsTable where
  reservedFd := List.replicate info.descriptorsCount false
  fdToInode := List.replicate info.descriptorsCount 0
  fdToPosition := List.replicate info.descriptorsCount 0

/-- Occupy a descriptor for an inode.  The first scan compares the inode with every slot,
    reserved or not; the second takes the first slot that is not reserved. -/
def reserveDescriptor (dt : DescriptorsTable) (inodeId : Nat) :
    Option (Nat × DescriptorsTable) :=
  if inodeId ∈ dt.fdToInode then none
  else
    match Lib.firstFree dt.reservedFd with
    | some fd => some (fd,
        { reservedFd := dt.reservedFd.set fd true
          fdToInode := dt.fdToInode.set fd inodeId
          fdToPosition := dt.fdToPosition.set fd 0 })
    | none => none

/-- Release a descriptor that is in the table; a slot that is not reserved stays as it is. -/
def freeDescriptor (dt : DescriptorsTable) (fd : Nat) : DescriptorsTable :=
  if dt.reservedFd[fd]? = some true then
    { reservedFd := dt.reservedFd.set fd false
      fdToInode := dt.fdToInode.set fd 0
      fdToPosition := dt.fdToPosition.set fd 0 }
  else dt

/-! ### Inodes -/

/-- An inode: `inode_info` and the array of `blocks_count_in_inode` block numbers. -/
structure Inode where
  id : Nat
  blocksCount : Nat
  isFile : Bool
  blockIds : List Nat
  deriving DecidableEq, Repr, Inhabited

/-- `init_inode`: no blocks yet, every entry of the block list zero. -/
def initInode (info : FsInfo) (id : Nat) (isFile : Bool) : Inode where
  id := id
  blocksCount := 0
  isFile := isFile
  blockIds := List.replicate info.blocksCountInInode 0

/-! ### Blocks -/

/-- The header of a block. -/
structure BlockInfo where
  blockId : Nat
  inodeId : Nat
  recordsCount : Nat
  dataSize : Nat
  deriving DecidableEq, Repr, Inhabited

/-- A directory record: an inode number and a name field of `max_path_len` bytes. -/
structure BlockRecord where
  inodeId : Nat
  path : List UInt8
  deriving DecidableEq, Repr, Inhabited

/-- A block in memory.  `records` is `none` where `block_records` is `NULL`. -/
structure Block where
  info : BlockInfo
  records : Option (List BlockRecord)
  data : List UInt8
  deriving DecidableEq, Repr, Inhabited

/-- `init_block`: an empty block, its data buffer zeroed. -/
def initBlock (info : FsInfo) (blockId inodeId : Nat) : Block where
  info := { blockId, inodeId, recordsCount := 0, dataSize := 0 }
  records := none
  data := List.replicate (maxSizeOfData info) 0

/-- A name field: the bytes of the name, then zeros. -/
def nameField (info : FsInfo) (name : List UInt8) : List UInt8 :=
  name ++ List.replicate (info.maxPathLen - name.length) 0

/-- `strcmp` of a name field with a C string: `none` when the comparison runs off the end
    of the field. -/
def strcmpField : List UInt8 → List UInt8 → Option Bool
  | [], _ => none
  | x :: _, [] => some (x == 0)
  | x :: field, y :: name => if x = y then strcmpField field name else some false

/-- Store bytes in a buffer from a position on. -/
def memcpy (buffer : List UInt8) (position : Nat) (bytes : List UInt8) : List UInt8 :=
  buffer.take position ++ bytes ++ buffer.drop (position + bytes.length)

end MiniExt
