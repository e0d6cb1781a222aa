import MiniExt.Core.Methods

namespace MiniExt

open Lib

/-!
# Interface — entering an image, `init`, `read_fs`, `ls`, `mkdir`, `touch`

Every command opens the image, reads the superblock and checks its magic number; all but
`init` and `read_fs` also check that the root directory exists.  That prologue is `enter`.
The branches that release their objects and then run on, where the C code has no `return`,
are kept: what follows them uses a released object.
-/

/-! ### The common prologue -/

/-- Open the image and check its magic number. -/
def openFs : ExtProg Superblock := do
  if !(← openImage false) then exitFailure
  else
    -- the result of `read_super_block` is not checked
    let sb ← readSuperBlock
    use .superblock
    let sb := sb.getD default
    if sb.fsInfo.magic ≠ magicNumber then
      release .superblock
      release .image
      exitFailure
    else return sb

/-- Open the image and check that it has a root directory. -/
def enter : ExtProg Superblock := do
  let sb ← openFs
  if !(← index sb.reservedInodesMask rootInodeId) then
    release .superblock
    release .image
    exitFailure
  else return sb

/-- Release the superblock and close the image. -/
def leave : ExtProg Unit := do
  release .superblock
  release .image

/-- Release the command's inode, then the superblock and the image. -/
def leaveInode : ExtProg Unit := do
  release .inode
  leave

/-! ### `init` and `read_fs` -/

/-- `init_fs`: truncate the image and write an empty file system into it. -/
def initFs : ExtProg Unit := do
  if !(← openImage true) then exitFailure
  else
    let sb := initSuperBlock
    acquire .superblock
    if !(← writeSuperBlock sb) then
      release .superblock
      exitFailure
    else
      let dt := initDescriptorsTable sb.fsInfo
      acquire .descriptorsTable
      if !(← writeDescriptorTable sb dt) then
        release .descriptorsTable
        release .superblock
        exitFailure
      else
        let _ ← createDirHelper sb 0 true
        release .descriptorsTable
        leave

/-- `read_fs`: check the magic number of the image. -/
def readFs : ExtProg Unit := do
  let _ ← openFs
  leave

/-! ### `ls` -/

/-- The loop of `ls` over the records of a directory. -/
def lsRecords (sb : Superblock) : List BlockRecord → ExtProg Unit
  | [] => do
    release .block
    leave
  | r :: rs => do
    match ← readInode .inode sb r.inodeId with
    | none => leave
    | some _ =>
      release .inode
      lsRecords sb rs

/-- The part of `ls` after the inode was read: a directory is listed. -/
def lsInode (sb : Superblock) (inode : Inode) : ExtProg Unit := do
  use .inode
  if inode.isFile then leaveInode
  else
    let blockId ← index inode.blockIds 0
    match ← readBlock .block sb blockId with
    | none => leaveInode
    | some block =>
      release .inode
      lsRecords sb block.recordList

/-- `ls`. -/
def ls (pathToDir : List UInt8) : ExtProg Unit := do
  let sb ← enter
  let inodeId ← getInodeIdOfDir pathToDir sb
  if inodeId = sb.fsInfo.inodesCount then leave
  else
    let read ← readInode .inode sb inodeId
    if read.isNone then leave
    lsInode sb (read.getD default)

/-! ### `mkdir` and `touch` -/

/-- The part of `create_dir` and `create_file` after the new inode is stored: append its
    record to the first block of the parent.  `returnsWhenFull` tells whether the branch
    for a full directory returns. -/
def appendRecord (sb : Superblock) (inode : Inode) (newInodeId : Nat) (dirname : List UInt8)
    (returnsWhenFull : Bool) : ExtProg Unit := do
  use .inode
  let blockId ← index inode.blockIds 0
  let read ← readBlock .block sb blockId
  if read.isNone then leaveInode
  use .block
  use .superblock
  let block := read.getD default
  let full := block.info.recordsCount = getMaxRecordsCount sb.fsInfo
  if full then leaveInode
  if full ∧ returnsWhenFull then return ()
  else
    use .superblock
    -- `strcpy` into a name field of `max_path_len` bytes
    if sb.fsInfo.maxPathLen ≤ dirname.length then halt .memoryError
    else
      let newRecord : BlockRecord := ⟨newInodeId, nameField sb.fsInfo dirname⟩
      let block : Block :=
        { block with
          info := { block.info with recordsCount := (block.info.recordsCount + 1) % 2 ^ 8 }
          records := some (block.recordList ++ [newRecord]) }
      if !(← writeBlock .block sb block) then
        release .inode
        release .block
        leave
      release .inode
      release .block
      leave

/-- The common body of `create_dir` and `create_file`. -/
def create (helper : Superblock → Nat → ExtProg (Nat × Superblock)) (returnsWhenFull : Bool)
    (path : List UInt8) : ExtProg Unit := do
  let sb ← enter
  match ← Prog.ofOutcome (splitPath path) with
  | none => leave
  | some (parentPath, dirname) =>
    let inodeId ← getInodeIdOfDir parentPath sb
    if inodeId = sb.fsInfo.inodesCount then leave
    else
      let read ← readInode .inode sb inodeId
      if read.isNone then leave
      use .inode
      let inode := read.getD default
      if inode.isFile then leaveInode
      else if ← isDirExist inode dirname sb then leaveInode
      else
        let (newInodeId, sb) ← helper sb inodeId
        if newInodeId = sb.fsInfo.inodesCount then leaveInode
        appendRecord sb inode newInodeId dirname returnsWhenFull

/-- `create_dir`: its branch for a full directory has no `return`. -/
def createDir (path : List UInt8) : ExtProg Unit :=
  create (fun sb parentNodeId => createDirHelper sb parentNodeId false) false path

/-- `create_file`. -/
def createFile (path : List UInt8) : ExtProg Unit :=
  create createFileHelper true path

end MiniExt
