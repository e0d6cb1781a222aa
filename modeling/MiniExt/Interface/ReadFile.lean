import MiniExt.Interface.WriteToFile

namespace MiniExt

open Lib

/-!
# Interface — `read` and `read_to`

The loop of `read_file` copies from one block per turn.  It stops when the block index
exceeds the number of blocks of the inode, or when the block has no data past the
position.  The difference of the data size and the position is an unsigned number.
-/

/-- The variables of the loop of `read_file`; `dest` holds the bytes copied so far. -/
structure ReadState where
  fdPosition : Nat
  dest : List UInt8
  needToRead : Nat

/-- The loop of `read_file`, copying into a buffer of `capacity` bytes.  Every turn that
    goes on copies at least one byte, so `fuel` turns are enough for `fuel` bytes. -/
def readLoop (sb : Superblock) (inode : Inode) (size capacity : Nat) :
    (fuel : Nat) → ReadState → ExtProg ReadState
  | 0, s => return s
  | fuel + 1, s => do
    if s.dest.length = size then return s
    else
      use .superblock
      use .inode
      let maxData := getMaxDataInBlock sb.fsInfo
      if maxData = 0 then halt .abort
      else
        let blockToReadPos := s.fdPosition % 2 ^ 16 / maxData % 2 ^ 16
        if inode.blocksCount < blockToReadPos then return s
        else
          let blockId ← index inode.blockIds blockToReadPos
          match ← readBlock .block sb blockId with
          | none =>
            release .descriptorsTable
            exitReleased
            return s
          | some block =>
            let positionInBlockData := s.fdPosition % maxData
            let remainRead := (block.info.dataSize + 2 ^ 32 - positionInBlockData) % 2 ^ 32
            if remainRead = 0 then
              release .block
              return s
            else
              let sizeToRead := if s.needToRead < remainRead then s.needToRead else remainRead
              if block.data.length < positionInBlockData + sizeToRead
                  ∨ capacity < s.dest.length + sizeToRead then
                halt .memoryError
              else
                release .block
                readLoop sb inode size capacity fuel
                  { fdPosition := (s.fdPosition + sizeToRead) % 2 ^ 32
                    dest := s.dest ++ (block.data.drop positionInBlockData).take sizeToRead
                    needToRead := s.needToRead - sizeToRead }

/-- `read_file` into a buffer of `capacity` bytes: the bytes read, `none` for `-1`. -/
def readFile (fileDescriptor size capacity : Nat) : ExtProg (Option (List UInt8)) := do
  let sb ← enter
  let size := min size (getMaxDataSizeOfAllBlocks sb.fsInfo)
  match ← readDescriptorsTable sb with
  | none =>
    leave
    exitFailure
  | some dt =>
    use .descriptorsTable
    if !(← index dt.reservedFd fileDescriptor) then
      leaveTable
      return none
    else
      let fdPosition ← index dt.fdToPosition fileDescriptor
      let inodeId ← index dt.fdToInode fileDescriptor
      match ← readInode .inode sb inodeId with
      | none =>
        leaveTable
        exitFailure
      | some inode =>
        let s ← readLoop sb inode size capacity size
          { fdPosition, dest := [], needToRead := size }
        let dt := { dt with fdToPosition := dt.fdToPosition.set fileDescriptor s.fdPosition }
        if !(← writeDescriptorTable sb dt) then
          release .descriptorsTable
          exitReleased
        release .descriptorsTable
        leaveInode
        return some s.dest

/-- `read_file_to_file`; the size is `none` for `-1`, up to the end of the file. -/
def readFileToFile (fileDescriptor : Nat) (path : List UInt8) (size : Option Nat) :
    ExtProg Unit := do
  let sb ← enter
  let maxSize := getMaxDataSizeOfAllBlocks sb.fsInfo
  let maxSize := match size with
    | none => maxSize
    | some size => if maxSize < size then maxSize else size
  leave
  match ← readFile fileDescriptor maxSize maxSize with
  | none => return ()
  | some buffer =>
    let _ ← writeHostFile path buffer
    return ()

end MiniExt
