import MiniExt.Host

namespace MiniExt

open Lib

/-!
# Core — helpers shared by the commands

`create_dir_helper` and `create_file_helper` reserve an inode and a block and store them;
`get_inode_id_of_dir` walks a path from the root; `is_dir_exist` and `get_file_inode_id`
look a name up in the first block of a directory.
-/

/-! ### Creation -/

/-- The common body of the two creation helpers: reserve an inode and a block, then store
    the block, the inode and the superblock.  The result is the new inode number, or
    `inodes_count`, with the superblock as the helper leaves it in memory. -/
def createHelper (sb : Superblock) (isFile : Bool) (newBlock : Nat → Nat → ExtProg Block) :
    ExtProg (Nat × Superblock) := do
  use .superblock
  let failed := sb.fsInfo.inodesCount
  let (newInodeId, sb) := reserveInode sb
  if newInodeId = sb.fsInfo.inodesCount then return (failed, sb)
  else
    let (newBlockId, sb) := reserveBlock sb
    if newBlockId = sb.fsInfo.blocksCount then return (failed, (freeInode sb newInodeId).2)
    else
      let undone := (freeBlock (freeInode sb newInodeId).2 newBlockId).2
      let inode := initInode sb.fsInfo newInodeId isFile
      acquire .newInode
      let _ ← index inode.blockIds 0
      let inode := { inode with blockIds := inode.blockIds.set 0 newBlockId, blocksCount := 1 }
      let block ← newBlock newBlockId newInodeId
      acquire .newBlock
      if !(← writeBlock .newBlock sb block) then
        release .newInode
        release .newBlock
        return (failed, undone)
      else
        release .newBlock
        if !(← writeInode .newInode sb inode) then
          release .newInode
          return (failed, undone)
        else
          release .newInode
          if !(← writeSuperBlock sb) then return (failed, undone)
          else return (newInodeId, sb)

/-- The name `.`. -/
def dotName : List UInt8 := [46]

/-- The name `..`. -/
def twoDotsName : List UInt8 := [46, 46]

/-- The block of a new directory: the records `.` and `..`. -/
def directoryBlock (info : FsInfo) (parentNodeId newBlockId newInodeId : Nat) : Block :=
  { initBlock info newBlockId newInodeId with
    info := { blockId := newBlockId, inodeId := newInodeId, recordsCount := 2, dataSize := 0 }
    records := some [⟨newInodeId, nameField info dotName⟩,
      ⟨parentNodeId, nameField info twoDotsName⟩] }

/-- `create_dir_helper`: a directory whose parent is `parent_node_id`, or itself for the
    root. -/
def createDirHelper (sb : Superblock) (parentNodeId : Nat) (isRoot : Bool) :
    ExtProg (Nat × Superblock) :=
  createHelper sb false (fun newBlockId newInodeId =>
    -- the copies of `.` and `..` into the name fields
    if sb.fsInfo.maxPathLen < 2 then halt .memoryError
    else pure (directoryBlock sb.fsInfo (if isRoot then newInodeId else parentNodeId)
      newBlockId newInodeId))

/-- `create_file_helper`: an empty file. -/
def createFileHelper (sb : Superblock) (_parentNodeId : Nat) : ExtProg (Nat × Superblock) :=
  createHelper sb true (fun newBlockId newInodeId =>
    pure (initBlock sb.fsInfo newBlockId newInodeId))

/-! ### Lookup -/

/-- The first record with a given name, as the loops over `block_records` find it. -/
def findRecord : List BlockRecord → List UInt8 → Outcome Stop (Option Nat)
  | [], _ => .done none
  | r :: rs, name =>
    match strcmpField r.path name with
    | none => .halted .memoryError
    | some true => .done (some r.inodeId)
    | some false => findRecord rs name

/-- The records of a block in memory. -/
def Block.recordList (block : Block) : List BlockRecord := block.records.getD []

/-- `get_inode_id_of_dir_rec`: one level of the walk per call.  `fuel` bounds the depth; a
    path shorter than it is walked to its end. -/
def getInodeIdOfDirRec (sb : Superblock) :
    (fuel depth : Nat) → (path : List UInt8) → (currentInodeId : Nat) → ExtProg (Option Nat)
  | 0, _, _, _ => halt .outside
  | fuel + 1, depth, path, currentInodeId => do
    match ← readInode (.walkInode depth) sb currentInodeId with
    | none => return none
    | some inode =>
      use (.walkInode depth)
      if inode.isFile then
        release (.walkInode depth)
        return none
      else
        let (currentFileName, pathToParse) ← Prog.ofOutcome (parsePath sb.fsInfo path)
        if currentFileName = [slash] then
          release (.walkInode depth)
          return some currentInodeId
        else
          let blockId ← index inode.blockIds 0
          -- the result of `read_block` is not checked
          let block ← readBlock (.walkBlock depth) sb blockId
          use (.walkBlock depth)
          let found ← Prog.ofOutcome (findRecord (block.getD default).recordList currentFileName)
          match found, pathToParse with
          | none, _ =>
            release (.walkBlock depth)
            release (.walkInode depth)
            return none
          | some inodeId, none =>
            release (.walkBlock depth)
            release (.walkInode depth)
            return some inodeId
          | some inodeId, some rest =>
            let result ← getInodeIdOfDirRec sb fuel (depth + 1) rest inodeId
            release (.walkBlock depth)
            release (.walkInode depth)
            return result

/-- `get_inode_id_of_dir`: the walk from the root; `inodes_count` when it fails. -/
def getInodeIdOfDir (path : List UInt8) (sb : Superblock) : ExtProg Nat := do
  match ← getInodeIdOfDirRec sb (path.length + 1) 0 path rootInodeId with
  | some inodeId => return inodeId
  | none => return sb.fsInfo.inodesCount

/-- The lookup `is_dir_exist` and `get_file_inode_id` share: the first block of a
    directory, searched for a name.  When the block cannot be read the program exits. -/
def lookup (inode : Inode) (dirname : List UInt8) (sb : Superblock) : ExtProg (Option Nat) := do
  use .inode
  let blockId ← index inode.blockIds 0
  match ← readBlock .lookupBlock sb blockId with
  | none => exitFailure
  | some block =>
    let found ← Prog.ofOutcome (findRecord block.recordList dirname)
    release .lookupBlock
    return found

/-- `is_dir_exist`. -/
def isDirExist (inode : Inode) (dirname : List UInt8) (sb : Superblock) : ExtProg Bool := do
  let found ← lookup inode dirname sb
  return found.isSome

/-- `get_file_inode_id`: `inodes_count` when the directory has no such record. -/
def getFileInodeId (inode : Inode) (dirname : List UInt8) (sb : Superblock) : ExtProg Nat := do
  let found ← lookup inode dirname sb
  return found.getD sb.fsInfo.inodesCount

end MiniExt
