import MiniExt.Interface.Create

namespace MiniExt

open Lib

/-!
# Interface — `open`, `close`, `lseek`
-/

/-- Release the descriptor table, then the superblock and the image. -/
def leaveTable : ExtProg Unit := do
  release .descriptorsTable
  leave

/-- `open_file`: occupy a descriptor for the inode a path names.  The result is the
    descriptor that is printed. -/
def openFile (path : List UInt8) : ExtProg (Option Nat) := do
  let sb ← enter
  match ← Prog.ofOutcome (splitPath path) with
  | none =>
    leave
    return none
  | some (parentPath, filename) =>
    let inodeId ← getInodeIdOfDir parentPath sb
    if inodeId = sb.fsInfo.inodesCount then
      leave
      return none
    else
      let read ← readInode .inode sb inodeId
      if read.isNone then leave
      use .inode
      let inode := read.getD default
      if inode.isFile then
        leaveInode
        return none
      else
        match ← readDescriptorsTable sb with
        | none =>
          leaveInode
          exitFailure
        | some dt =>
          let fileInodeId ← getFileInodeId inode filename sb
          if fileInodeId = sb.fsInfo.inodesCount then
            release .descriptorsTable
            leaveInode
            return none
          else
            use .descriptorsTable
            match reserveDescriptor dt fileInodeId with
            | none =>
              release .descriptorsTable
              leaveInode
              return none
            | some (newFd, dt) =>
              if !(← writeDescriptorTable sb dt) then
                release .descriptorsTable
                leaveInode
                exitFailure
              else
                release .descriptorsTable
                leaveInode
                return some newFd

/-- The prologue of the commands on a descriptor: enter the image and read its table. -/
def enterTable : ExtProg (Superblock × DescriptorsTable) := do
  let sb ← enter
  match ← readDescriptorsTable sb with
  | none =>
    leave
    exitFailure
  | some dt => return (sb, dt)

/-- Write the descriptor table back; on failure release everything and exit. -/
def storeTable (sb : Superblock) (dt : DescriptorsTable) : ExtProg Unit := do
  if !(← writeDescriptorTable sb dt) then
    leaveTable
    exitFailure

/-- `close_file`.  The table is written back even when the descriptor was not reserved. -/
def closeFile (fdToClose : Nat) : ExtProg Unit := do
  let (sb, dt) ← enterTable
  use .descriptorsTable
  let _ ← index dt.reservedFd fdToClose
  storeTable sb (freeDescriptor dt fdToClose)
  leaveTable

/-- `lseek_pos`.  The two rejecting branches do not close the image. -/
def lseekPos (fileDescriptor pos : Nat) : ExtProg Unit := do
  let (sb, dt) ← enterTable
  use .descriptorsTable
  if !(← index dt.reservedFd fileDescriptor) then
    release .descriptorsTable
    release .superblock
  else if getMaxDataSizeOfAllBlocks sb.fsInfo ≤ pos then
    release .descriptorsTable
    release .superblock
  else
    storeTable sb { dt with fdToPosition := dt.fdToPosition.set fileDescriptor pos }
    leaveTable

end MiniExt
