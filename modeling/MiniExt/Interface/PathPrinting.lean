import MiniExt.Interface.Printing

namespace MiniExt

open Lib

/-!
# Interface — what the commands on paths print

`init`, `read_fs`, `ls`, `mkdir`, `touch` and `open` once more, with their prints, and the client's
own prints around the commands.  As for the commands on descriptors, the texts are all that is new.

* `Printing.getInodeIdOfDir`, `Printing.ls`, `Printing.create`, … — the functions under their own
  names;
* `Command.print` — what the client does for a command;
* `silent_ls`, `silent_create`, … — each is the function it repeats, but for its prints.
-/

namespace Printing

/-! ### Paths -/

/-- `parse_path`: its two exits print the same message. -/
def parsePath (info : FsInfo) (path : List UInt8) :
    Printing (List UInt8 × Option (List UInt8)) := do
  match MiniExt.parsePath info path with
  | .halted .exit =>
    eprint "Incorrect path in parse_path function. Abort!\n"
    exitFailure
  | .halted e => halt e
  | .done parsed => return parsed

/-- `split_path`: a path without a last name is refused without a message. -/
def splitPath (path : List UInt8) : Printing (Option (List UInt8 × List UInt8)) := do
  match MiniExt.splitPath path with
  | .halted e => halt e
  | .done none =>
    let copied := path.take (path.length % 2 ^ 16)
    let buffer := if copied.getLast? = some slash then copied.dropLast else copied
    if buffer.head? ≠ some slash then
      eprint "Incorrect path to split. Abort!\n"
    return none
  | .done (some parts) => return some parts

/-- `get_inode_id_of_dir_rec`. -/
def getInodeIdOfDirRec (sb : Superblock) :
    (fuel depth : Nat) → (path : List UInt8) → (currentInodeId : Nat) → Printing (Option Nat)
  | 0, _, _, _ => halt .outside
  | fuel + 1, depth, path, currentInodeId => do
    match ← readInode (.walkInode depth) sb currentInodeId with
    | none =>
      eprint "Can't read inode. Abort!\n"
      return none
    | some inode =>
      use (.walkInode depth)
      if inode.isFile then
        eprint "Trying to list file. Abort!\n"
        release (.walkInode depth)
        return none
      else
        let (currentFileName, pathToParse) ← parsePath sb.fsInfo path
        if currentFileName = [slash] then
          release (.walkInode depth)
          return some currentInodeId
        else
          let blockId ← index inode.blockIds 0
          let block ← readBlock (.walkBlock depth) sb blockId
          use (.walkBlock depth)
          let found ← Prog.ofOutcome (findRecord (block.getD default).recordList currentFileName)
          match found, pathToParse with
          | none, _ =>
            eprint "Directory doesn't exist. Abort!\n"
            release (.walkBlock depth)
            release (.walkInode depth)
            return none
          | some inodeId, none =>
            release (.walkBlock depth)
            release (.walkInode depth)
            return some inodeId
          | some inodeId, some rest =>
            let result ← getInodeIdOfDirRec sb fuel (depth + 1) rest inodeId
            release (.walkBlock depth)
            release (.walkInode depth)
            return result

/-- `get_inode_id_of_dir`. -/
def getInodeIdOfDir (path : List UInt8) (sb : Superblock) : Printing Nat := do
  match ← getInodeIdOfDirRec sb (path.length + 1) 0 path rootInodeId with
  | some inodeId => return inodeId
  | none =>
    eprint "Can't find inode. Abort!\n"
    return sb.fsInfo.inodesCount

/-- The common part of `is_dir_exist` and `get_file_inode_id`. -/
def lookup (inode : Inode) (dirname : List UInt8) (sb : Superblock) : Printing (Option Nat) := do
  use .inode
  let blockId ← index inode.blockIds 0
  match ← readBlock .lookupBlock sb blockId with
  | none =>
    eprint "Can't read block. Abort without cleaning!\n"
    exitFailure
  | some block =>
    let found ← Prog.ofOutcome (findRecord block.recordList dirname)
    release .lookupBlock
    return found

/-- `is_dir_exist`. -/
def isDirExist (inode : Inode) (dirname : List UInt8) (sb : Superblock) : Printing Bool := do
  let found ← lookup inode dirname sb
  return found.isSome

/-- `get_file_inode_id`. -/
def getFileInodeId (inode : Inode) (dirname : List UInt8) (sb : Superblock) : Printing Nat := do
  let found ← lookup inode dirname sb
  return found.getD sb.fsInfo.inodesCount

/-! ### Creation -/

/-- The common part of the two creation helpers. -/
def createHelper (sb : Superblock) (isFile : Bool) (newBlock : Nat → Nat → ExtProg Block) :
    Printing (Nat × Superblock) := do
  use .superblock
  let failed := sb.fsInfo.inodesCount
  let (newInodeId, sb) := reserveInode sb
  if newInodeId = sb.fsInfo.inodesCount then
    eprint "Can't create more inodes. Abort!\n"
    return (failed, sb)
  else
    let (newBlockId, sb) := reserveBlock sb
    if newBlockId = sb.fsInfo.blocksCount then
      eprint "Can't create more blocks. Abort!\n"
      return (failed, (freeInode sb newInodeId).2)
    else
      let undone := (freeBlock (freeInode sb newInodeId).2 newBlockId).2
      let inode := initInode sb.fsInfo newInodeId isFile
      acquire .newInode
      let _ ← index inode.blockIds 0
      let inode := { inode with blockIds := inode.blockIds.set 0 newBlockId, blocksCount := 1 }
      let block ← newBlock newBlockId newInodeId
      acquire .newBlock
      if !(← writeBlock .newBlock sb block) then
        eprint "Can't write block. Abort!\n"
        release .newInode
        release .newBlock
        return (failed, undone)
      else
        release .newBlock
        if !(← writeInode .newInode sb inode) then
          eprint "Can't write inode. Abort!\n"
          release .newInode
          return (failed, undone)
        else
          release .newInode
          if !(← writeSuperBlock sb) then
            eprint "Can't write superblock. Abort!\n"
            return (failed, undone)
          else return (newInodeId, sb)

/-- `create_dir_helper`. -/
def createDirHelper (sb : Superblock) (parentNodeId : Nat) (isRoot : Bool) :
    Printing (Nat × Superblock) :=
  createHelper sb false (fun newBlockId newInodeId =>
    if sb.fsInfo.maxPathLen < 2 then halt .memoryError
    else pure (directoryBlock sb.fsInfo (if isRoot then newInodeId else parentNodeId)
      newBlockId newInodeId))

/-- `create_file_helper`. -/
def createFileHelper (sb : Superblock) (_parentNodeId : Nat) : Printing (Nat × Superblock) :=
  createHelper sb true (fun newBlockId newInodeId =>
    pure (initBlock sb.fsInfo newBlockId newInodeId))

/-- The end of a creation: the record is appended. -/
def appendRecord (sb : Superblock) (inode : Inode) (newInodeId : Nat) (dirname : List UInt8)
    (returnsWhenFull : Bool) : Printing Unit := do
  use .inode
  let blockId ← index inode.blockIds 0
  let read ← readBlock .block sb blockId
  if read.isNone then
    eprint "Can't read block. Abort!\n"
    leaveInode
  use .block
  use .superblock
  let block := read.getD default
  let full := block.info.recordsCount = getMaxRecordsCount sb.fsInfo
  if full then
    eprint "Can't create more files in this dir. Abort!\n"
    leaveInode
  if full ∧ returnsWhenFull then return ()
  else
    use .superblock
    if sb.fsInfo.maxPathLen ≤ dirname.length then halt .memoryError
    else
      let newRecord : BlockRecord := ⟨newInodeId, nameField sb.fsInfo dirname⟩
      let block : Block :=
        { block with
          info := { block.info with recordsCount := (block.info.recordsCount + 1) % 2 ^ 8 }
          records := some (block.recordList ++ [newRecord]) }
      if !(← writeBlock .block sb block) then
        eprint "Can't write block. Abort!\n"
        release .inode
        release .block
        leave
      release .inode
      release .block
      leave

/-- The common body of `create_dir` and `create_file`, with the two messages that differ. -/
def create (helper : Superblock → Nat → Printing (Nat × Superblock)) (returnsWhenFull : Bool)
    (inFile present : String) (path : List UInt8) : Printing Unit := do
  let sb ← enter
  match ← splitPath path with
  | none =>
    eprint "Incorrect path. Abort!\n"
    leave
  | some (parentPath, dirname) =>
    let inodeId ← getInodeIdOfDir parentPath sb
    if inodeId = sb.fsInfo.inodesCount then
      eprint "Can't find directory. Abort!\n"
      leave
    else
      let read ← readInode .inode sb inodeId
      if read.isNone then
        eprint "Can't read inode. Abort!\n"
        leave
      use .inode
      let inode := read.getD default
      if inode.isFile then
        eprint inFile
        leaveInode
      else if ← isDirExist inode dirname sb then
        eprint present
        leaveInode
      else
        let (newInodeId, sb) ← helper sb inodeId
        if newInodeId = sb.fsInfo.inodesCount then
          eprint "Can't create more inodes! Abort!\n"
          leaveInode
        appendRecord sb inode newInodeId dirname returnsWhenFull

/-- `create_dir`. -/
def createDir (path : List UInt8) : Printing Unit :=
  create (fun sb parentNodeId => createDirHelper sb parentNodeId false) false
    "Trying to touch in file. Abort!\n" "File already exist! Abort!\n" path

/-- `create_file`. -/
def createFile (path : List UInt8) : Printing Unit :=
  create createFileHelper true "Trying to mkdir in file. Abort!\n" "Dir already exist! Abort!\n"
    path

/-! ### `open` -/

/-- `reserve_descriptor`. -/
def reserveDescriptor (dt : DescriptorsTable) (inodeId : Nat) :
    Printing (Option (Nat × DescriptorsTable)) := do
  match MiniExt.reserveDescriptor dt inodeId with
  | some reserved => return some reserved
  | none =>
    if inodeId ∈ dt.fdToInode then eprint "Can't open same inode twice. Abort!\n"
    else eprint "All descriptors are reserved. Abort!\n"
    return none

/-- `open_file`. -/
def openFile (path : List UInt8) : Printing (Option Nat) := do
  let sb ← enter
  match ← splitPath path with
  | none =>
    eprint "Incorrect path. Abort!\n"
    leave
    return none
  | some (parentPath, filename) =>
    let inodeId ← getInodeIdOfDir parentPath sb
    if inodeId = sb.fsInfo.inodesCount then
      eprint "Can't find directory. Abort!\n"
      leave
      return none
    else
      let read ← readInode .inode sb inodeId
      if read.isNone then
        eprint "Can't read inode. Abort!\n"
        leave
      use .inode
      let inode := read.getD default
      if inode.isFile then
        eprint "File doesn't exist. Abort!\n"
        leaveInode
        return none
      else
        match ← readDescriptorsTable sb with
        | none =>
          eprint "Can't read descriptors_table. Abort!\n"
          leaveInode
          exitFailure
        | some dt =>
          let fileInodeId ← getFileInodeId inode filename sb
          if fileInodeId = sb.fsInfo.inodesCount then
            eprint "File doesn't exist. Abort!\n"
            release .descriptorsTable
            leaveInode
            return none
          else
            use .descriptorsTable
            match ← reserveDescriptor dt fileInodeId with
            | none =>
              eprint "Can't open file. Abort!\n"
              release .descriptorsTable
              leaveInode
              return none
            | some (newFd, dt) =>
              if !(← writeDescriptorTable sb dt) then
                eprint "Can't write descriptors_table. Abort!\n"
                release .descriptorsTable
                leaveInode
                exitFailure
              else
                printf "opened fd: %d\n" [.number newFd]
                release .descriptorsTable
                leaveInode
                return some newFd

/-! ### `init`, `read_fs` and `ls` -/

/-- `init_fs`. -/
def initFs : Printing Unit := do
  if !(← openImage true) then
    eprint "Can't open file. Abort!"
    exitFailure
  else
    let sb := initSuperBlock
    acquire .superblock
    if !(← writeSuperBlock sb) then
      release .superblock
      eprint "Can't write superblock. Abort!"
      exitFailure
    else
      let dt := initDescriptorsTable sb.fsInfo
      acquire .descriptorsTable
      if !(← writeDescriptorTable sb dt) then
        eprint "Can't write descriptors_table. Abort!"
        release .descriptorsTable
        release .superblock
        exitFailure
      else
        let _ ← createDirHelper sb 0 true
        release .descriptorsTable
        leave

/-- The prologue of `read_fs`: its messages end without a new line. -/
def openChecked : Printing Superblock := do
  if !(← openImage false) then
    eprint "Can't open file. Abort!"
    exitFailure
  else
    let sb ← readSuperBlock
    use .superblock
    let sb := sb.getD default
    if sb.fsInfo.magic ≠ magicNumber then
      eprint "Magic does not match. Abort!"
      release .superblock
      release .image
      exitFailure
    else return sb

/-- `read_fs`. -/
def readFs : Printing Unit := do
  let _ ← openChecked
  leave

/-- The loop of `ls` over the records. -/
def lsRecords (sb : Superblock) : List BlockRecord → Printing Unit
  | [] => do
    release .block
    leave
  | r :: rs => do
    -- `%s` prints a name field up to its first zero
    printf "%s" [.string (r.path.takeWhile (· ≠ 0))]
    match ← readInode .inode sb r.inodeId with
    | none =>
      eprint "Can't read inode. Abort!\n"
      leave
    | some inode =>
      if inode.isFile then printf " -- file" []
      release .inode
      printf "\n" []
      lsRecords sb rs

/-- `ls` of an inode. -/
def lsInode (sb : Superblock) (inode : Inode) : Printing Unit := do
  use .inode
  if inode.isFile then
    eprint "Trying to list file. Abort!\n"
    leaveInode
  else
    let blockId ← index inode.blockIds 0
    match ← readBlock .block sb blockId with
    | none =>
      eprint "Can't read block. Abort!\n"
      leaveInode
    | some block =>
      release .inode
      lsRecords sb block.recordList

/-- `ls`. -/
def ls (pathToDir : List UInt8) : Printing Unit := do
  let sb ← enter
  let inodeId ← getInodeIdOfDir pathToDir sb
  if inodeId = sb.fsInfo.inodesCount then
    eprint "Can't find directory. Abort!\n"
    leave
  else
    let read ← readInode .inode sb inodeId
    if read.isNone then
      eprint "Can't read inode. Abort!\n"
      leave
    lsInode sb (read.getD default)

/-! ### The functions without their prints -/

/-- `parse_path` without its messages. -/
@[simp] theorem silent_parsePath (info : FsInfo) (path : List UInt8) :
    (parsePath info path).silent = Prog.ofOutcome (MiniExt.parsePath info path) := by
  unfold parsePath
  rcases MiniExt.parsePath info path with parsed | e
  · rfl
  · cases e <;> rfl

/-- `split_path` without its message. -/
@[simp] theorem silent_splitPath (path : List UInt8) :
    (splitPath path).silent = Prog.ofOutcome (MiniExt.splitPath path) := by
  unfold splitPath
  rcases MiniExt.splitPath path with (_ | parts) | e
  · dsimp only
    generalize (if (path.take _).getLast? = some slash then _ else _ : List UInt8) = buffer
    split <;> rfl
  · rfl
  · rfl

/-- The path walk without its messages. -/
@[simp] theorem silent_getInodeIdOfDirRec (sb : Superblock) (fuel depth : Nat) (path : List UInt8)
    (current : Nat) : (getInodeIdOfDirRec sb fuel depth path current).silent =
      MiniExt.getInodeIdOfDirRec sb fuel depth path current := by
  induction fuel generalizing depth path current with
  | zero => rfl
  | succ fuel ih =>
    simp only [getInodeIdOfDirRec, MiniExt.getInodeIdOfDirRec, Prog.silent_bind, silent_readInode]
    refine bind_congr fun read => ?_
    cases read with
    | none => simp
    | some inode =>
      simp only [Prog.silent_bind, Prog.silent_ite, silent_liftM, silent_eprint, pure_bind_silent,
        silent_parsePath, silent_readBlock, Prog.silent_ofOutcome]
      refine bind_congr fun _ => ite_congr rfl (fun _ => rfl) fun _ => ?_
      refine bind_congr fun parsed => ite_congr rfl (fun _ => rfl) fun _ => ?_
      refine bind_congr fun _ => bind_congr fun _ => bind_congr fun _ => bind_congr fun found => ?_
      rcases found with _ | inodeId
      · simp
      · rcases parsed.2 with _ | rest
        · simp
        · simp [ih]

/-- `get_inode_id_of_dir` without its message. -/
@[simp] theorem silent_getInodeIdOfDir (path : List UInt8) (sb : Superblock) :
    (getInodeIdOfDir path sb).silent = MiniExt.getInodeIdOfDir path sb := by
  simp only [getInodeIdOfDir, MiniExt.getInodeIdOfDir, Prog.silent_bind, silent_getInodeIdOfDirRec]
  refine bind_congr fun found => ?_
  cases found with
  | none => simp
  | some inodeId => rfl

/-- The lookup without the messages of its block. -/
@[simp] theorem silent_lookup (inode : Inode) (dirname : List UInt8) (sb : Superblock) :
    (lookup inode dirname sb).silent = MiniExt.lookup inode dirname sb := by
  simp only [lookup, MiniExt.lookup, Prog.silent_bind, silent_liftM, silent_readBlock]
  refine bind_congr fun _ => bind_congr fun _ => bind_congr fun read => ?_
  cases read with
  | none => simp
  | some block => simp

/-- `is_dir_exist` without its message. -/
@[simp] theorem silent_isDirExist (inode : Inode) (dirname : List UInt8) (sb : Superblock) :
    (isDirExist inode dirname sb).silent = MiniExt.isDirExist inode dirname sb := by
  simp [isDirExist, MiniExt.isDirExist]

/-- `get_file_inode_id` without its message. -/
@[simp] theorem silent_getFileInodeId (inode : Inode) (dirname : List UInt8) (sb : Superblock) :
    (getFileInodeId inode dirname sb).silent = MiniExt.getFileInodeId inode dirname sb := by
  simp [getFileInodeId, MiniExt.getFileInodeId]

/-- The creation of an inode without its messages. -/
@[simp] theorem silent_createHelper (sb : Superblock) (isFile : Bool)
    (newBlock : Nat → Nat → ExtProg Block) :
    (createHelper sb isFile newBlock).silent = MiniExt.createHelper sb isFile newBlock := by
  simp [createHelper, MiniExt.createHelper]

/-- Appending a record without its messages. -/
@[simp] theorem silent_appendRecord (sb : Superblock) (inode : Inode) (newInodeId : Nat)
    (dirname : List UInt8) (returnsWhenFull : Bool) :
    (appendRecord sb inode newInodeId dirname returnsWhenFull).silent =
      MiniExt.appendRecord sb inode newInodeId dirname returnsWhenFull := by
  simp [appendRecord, MiniExt.appendRecord]

/-- **The creations** without their messages. -/
theorem silent_create (helper : Superblock → Nat → Printing (Nat × Superblock))
    (returnsWhenFull : Bool) (inFile present : String) (path : List UInt8) :
    (create helper returnsWhenFull inFile present path).silent =
      MiniExt.create (fun sb i => (helper sb i).silent) returnsWhenFull path := by
  simp only [create, MiniExt.create, Prog.silent_bind, silent_enter, silent_splitPath]
  refine bind_congr fun sb => bind_congr fun parts => ?_
  rcases parts with _ | ⟨parentPath, dirname⟩
  · simp
  · simp

/-- **`create_dir`** without its prints. -/
@[simp] theorem silent_createDir (path : List UInt8) :
    (createDir path).silent = MiniExt.createDir path := by
  rw [createDir, silent_create]
  simp only [createDirHelper, silent_createHelper]
  rfl

/-- **`create_file`** without its prints. -/
@[simp] theorem silent_createFile (path : List UInt8) :
    (createFile path).silent = MiniExt.createFile path := by
  rw [createFile, silent_create]
  simp only [createFileHelper, silent_createHelper]
  rfl

/-- `reserve_descriptor` without its messages. -/
@[simp] theorem silent_reserveDescriptor (dt : DescriptorsTable) (inodeId : Nat) :
    (reserveDescriptor dt inodeId).silent = pure (MiniExt.reserveDescriptor dt inodeId) := by
  unfold reserveDescriptor
  rcases MiniExt.reserveDescriptor dt inodeId with _ | reserved
  · dsimp only
    split <;> rfl
  · rfl

/-- **`open_file`** without its prints. -/
@[simp] theorem silent_openFile (path : List UInt8) :
    (openFile path).silent = MiniExt.openFile path := by
  simp only [openFile, MiniExt.openFile, Prog.silent_bind, silent_enter, silent_splitPath]
  refine bind_congr fun sb => bind_congr fun parts => ?_
  rcases parts with _ | ⟨parentPath, filename⟩
  · simp
  simp only [Prog.silent_bind, Prog.silent_ite, Prog.silent_pure, silent_liftM, silent_eprint,
    pure_bind_silent, silent_getInodeIdOfDir, silent_readInode, silent_readDescriptorsTable]
  refine bind_congr fun inodeId => ite_congr rfl (fun _ => rfl) fun _ => ?_
  refine bind_congr fun read => ite_congr rfl (fun _ => bind_congr fun _ => ?_) fun _ => ?_
  all_goals
    refine bind_congr fun _ => ite_congr rfl (fun _ => rfl) fun _ => bind_congr fun table => ?_
    cases table with
    | none => simp
    | some dt =>
      simp only [Prog.silent_bind, Prog.silent_ite, Prog.silent_pure, silent_liftM, silent_eprint,
        pure_bind_silent, silent_getFileInodeId, silent_reserveDescriptor]
      refine bind_congr fun i => ite_congr rfl (fun _ => rfl) fun _ => bind_congr fun _ => ?_
      rcases MiniExt.reserveDescriptor dt i with _ | ⟨newFd, dt⟩
      · simp
      · simp

/-- `init_fs` without its messages. -/
@[simp] theorem silent_initFs : initFs.silent = MiniExt.initFs := by
  simp [initFs, MiniExt.initFs, createDirHelper, MiniExt.createDirHelper]

/-- `read_fs` without its messages. -/
@[simp] theorem silent_readFs : readFs.silent = MiniExt.readFs := by
  simp [readFs, MiniExt.readFs, openChecked, MiniExt.openFs]

/-- The lines of `ls` without the prints. -/
@[simp] theorem silent_lsRecords (sb : Superblock) (rs : List BlockRecord) :
    (lsRecords sb rs).silent = MiniExt.lsRecords sb rs := by
  induction rs with
  | nil => simp [lsRecords, MiniExt.lsRecords]
  | cons r rs ih =>
    simp only [lsRecords, MiniExt.lsRecords, Prog.silent_bind, silent_readInode, silent_printf,
      pure_bind_silent]
    refine bind_congr fun read => ?_
    cases read with
    | none => simp
    | some inode => simp [ih]

/-- **`ls`** without its prints. -/
@[simp] theorem silent_ls (path : List UInt8) : (ls path).silent = MiniExt.ls path := by
  have hinode : ∀ sb inode, (lsInode sb inode).silent = MiniExt.lsInode sb inode := by
    intro sb inode
    simp only [lsInode, MiniExt.lsInode, Prog.silent_bind, Prog.silent_ite, silent_liftM,
      silent_eprint, silent_readBlock, pure_bind_silent]
    refine bind_congr fun _ => ite_congr rfl (fun _ => rfl) fun _ => ?_
    refine bind_congr fun _ => bind_congr fun read => ?_
    cases read with
    | none => simp
    | some block => simp
  simp [ls, MiniExt.ls, hinode]

end Printing

/-- What the client does for a command; `data` is in the buffer of `read` from before. -/
def Command.print (data : List UInt8) : Command → Printing Unit
  | .init => do
    printf "Initializing fs\n" []
    Printing.initFs
  | .readFs => do
    printf "Reading fs\n" []
    Printing.readFs
  | .ls path => Printing.ls path.bytes
  | .mkdir path => Printing.createDir path.bytes
  | .touch path => Printing.createFile path.bytes
  | .open path => do let _ ← Printing.openFile path.bytes
  | .close fd => Printing.closeFile fd
  | .write fd data => do let _ ← Printing.writeToFile fd data
  | .writeFrom fd path => Printing.writeToFileFromFile fd path.bytes
  | .read fd size => Printing.readCommand fd size data
  | .readTo fd path size => Printing.readFileToFile fd path.bytes size
  | .lseek fd pos => Printing.lseekPos fd pos

/-- **What the client does** for a command, without the prints. -/
theorem Command.silent_print (data : List UInt8) (c : Command) :
    (c.print data).silent = c.prog := by
  cases c with
  | init => simp [print, prog]
  | readFs => simp [print, prog]
  | ls path => exact Printing.silent_ls path.bytes
  | mkdir path => exact Printing.silent_createDir path.bytes
  | touch path => exact Printing.silent_createFile path.bytes
  | «open» path => simp [print, prog]
  | close fd => exact Printing.silent_closeFile fd
  | write fd data => simp [print, prog]
  | writeFrom fd path => exact Printing.silent_writeToFileFromFile fd path.bytes
  | read fd size => exact Printing.silent_readCommand fd size data
  | readTo fd path size => exact Printing.silent_readFileToFile fd path.bytes size
  | lseek fd pos => exact Printing.silent_lseekPos fd pos

end MiniExt
