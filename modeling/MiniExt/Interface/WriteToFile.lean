import MiniExt.Interface.Descriptors

namespace MiniExt

open Lib

/-!
# Interface — `write` and `write_from`

The loop of `write_to_file` visits one block per turn: it patches a block the inode
already lists, or reserves one and appends it to the inode.  The inode is stored when a
block is appended, the superblock only after the loop.  Where no block can be appended the
loop stores everything, releases everything and breaks; the code after the loop then uses
the released table.
-/

/-- The variables of the loop of `write_to_file`. -/
structure WriteState where
  sb : Superblock
  dt : DescriptorsTable
  inode : Inode
  fdPosition : Nat
  data : List UInt8
  totalWritten : Nat
  needToWriteSize : Nat

/-- Release the inode, the superblock and the image, and exit. -/
def exitReleased : ExtProg Unit := do
  release .inode
  leave
  exitFailure

/-- Store the position, the inode and the superblock and release everything: the code
    after the loop, which both of its exhaustion branches repeat. -/
def storeAll (fileDescriptor : Nat) (s : WriteState) : ExtProg Unit := do
  use .descriptorsTable
  let dt := { s.dt with fdToPosition := s.dt.fdToPosition.set fileDescriptor s.fdPosition }
  if !(← writeDescriptorTable s.sb dt) then
    release .descriptorsTable
    exitReleased
  else
    release .descriptorsTable
    if !(← writeInode .inode s.sb s.inode) then exitReleased
    else
      release .inode
      if !(← writeSuperBlock s.sb) then
        leave
        exitFailure
      else leave

/-- The second half of a turn: copy as many bytes as fit into the block, store it and move
    on.  The data size of the block is set from the position of this write alone. -/
def fillBlock (s : WriteState) (block : Block) : ExtProg WriteState := do
  let maxData := getMaxDataInBlock s.sb.fsInfo
  let positionInBlockData := s.fdPosition % maxData
  let remainSize := maxData - positionInBlockData
  let sizeToWrite := if s.needToWriteSize < remainSize then s.needToWriteSize else remainSize
  use .block
  if block.data.length < positionInBlockData + sizeToWrite ∨ s.data.length < sizeToWrite then
    halt .memoryError
  else
    let block : Block :=
      { block with
        info := { block.info with dataSize := (positionInBlockData + sizeToWrite) % 2 ^ 16 }
        data := memcpy block.data positionInBlockData (s.data.take sizeToWrite) }
    if !(← writeBlock .block s.sb block) then
      release .block
      exitReleased
    release .block
    return { s with
      fdPosition := (s.fdPosition + sizeToWrite) % 2 ^ 32
      data := s.data.drop sizeToWrite
      totalWritten := s.totalWritten + sizeToWrite
      needToWriteSize := s.needToWriteSize - sizeToWrite }

/-- Append a freshly reserved block to the inode and store the inode. -/
def appendBlock (s : WriteState) (inodeId newBlockId : Nat) : ExtProg (WriteState × Block) := do
  acquire .block
  -- the data buffer is allocated a second time, with room for a whole block
  let block :=
    { initBlock s.sb.fsInfo newBlockId inodeId with
      data := List.replicate s.sb.fsInfo.blockSize 0 }
  let _ ← index s.inode.blockIds s.inode.blocksCount
  let inode := { s.inode with
    blockIds := s.inode.blockIds.set s.inode.blocksCount newBlockId
    blocksCount := (s.inode.blocksCount + 1) % 2 ^ 16 }
  if !(← writeInode .inode s.sb inode) then
    release .block
    exitReleased
  return ({ s with inode := inode }, block)

/-- The loop of `write_to_file`.  Every turn writes at least one byte, so `fuel` turns are
    enough for `fuel` bytes. -/
def writeLoop (fileDescriptor inodeId size : Nat) : (fuel : Nat) → WriteState → ExtProg WriteState
  | 0, s => return s
  | fuel + 1, s => do
    if s.totalWritten = size then return s
    else
      use .superblock
      use .inode
      let maxData := getMaxDataInBlock s.sb.fsInfo
      if maxData = 0 then halt .abort
      else
        let blockToWritePos := s.fdPosition % 2 ^ 16 / maxData % 2 ^ 16
        if blockToWritePos < s.inode.blocksCount then
          let blockId ← index s.inode.blockIds blockToWritePos
          match ← readBlock .block s.sb blockId with
          | none =>
            release .descriptorsTable
            exitReleased
            return s
          | some block =>
            let s ← fillBlock s block
            writeLoop fileDescriptor inodeId size fuel s
        else
          let (newBlockId, sb) := reserveBlock s.sb
          let s := { s with sb := sb }
          if newBlockId = sb.fsInfo.blocksCount then
            storeAll fileDescriptor s
            return s
          else if s.inode.blocksCount = sb.fsInfo.blocksCountInInode then
            storeAll fileDescriptor s
            return s
          else
            let (s, block) ← appendBlock s inodeId newBlockId
            let s ← fillBlock s block
            writeLoop fileDescriptor inodeId size fuel s

/-- `write_to_file`.  The result is the number of bytes that is printed. -/
def writeToFile (fileDescriptor : Nat) (data : List UInt8) : ExtProg (Option Nat) := do
  let sb ← enter
  let size := min data.length (getMaxDataSizeOfAllBlocks sb.fsInfo)
  match ← readDescriptorsTable sb with
  | none =>
    leave
    exitFailure
  | some dt =>
    use .descriptorsTable
    if !(← index dt.reservedFd fileDescriptor) then
      leaveTable
      return none
    else
      let fdPosition ← index dt.fdToPosition fileDescriptor
      let inodeId ← index dt.fdToInode fileDescriptor
      match ← readInode .inode sb inodeId with
      | none =>
        leaveTable
        exitFailure
      | some inode =>
        let s ← writeLoop fileDescriptor inodeId size size
          { sb, dt, inode, fdPosition, data, totalWritten := 0, needToWriteSize := size }
        storeAll fileDescriptor s
        return some s.totalWritten

/-- `write_to_file_from_file`: write the content of a host file. -/
def writeToFileFromFile (fileDescriptor : Nat) (pathToFile : List UInt8) : ExtProg Unit := do
  match ← readHostFile pathToFile with
  | none => return ()
  | some buffer =>
    -- the size passes through an `int`; `-1` there is taken for a failed read
    if buffer.length % 2 ^ 32 = 2 ^ 32 - 1 then return ()
    else
      let _ ← writeToFile fileDescriptor (buffer.take (buffer.length % 2 ^ 32))
      return ()

end MiniExt
