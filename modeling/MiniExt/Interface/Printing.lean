import MiniExt.Client
import MiniExt.Interface.Messages

namespace MiniExt

open Lib

/-!
# Interface — what the commands on descriptors print

`close`, `read`, `write`, `lseek`, `read_to` and `write_from` once more, with the messages they
write to `stderr` and the results they print; and what the client prints of a `read`.  The texts
are the only thing that is new here: without them the programs are the ones of the other interface
modules.

* `Printing.closeFile`, `Printing.readFile`, … — the functions under their own names;
* `silent_closeFile`, `silent_readFile`, … — each is the function it repeats, but for its prints.
-/

namespace Printing

/-! ### Entering an image -/

/-- `open` of the image and `read_super_block`. -/
def openFs : Printing Superblock := do
  if !(← openImage false) then
    eprint "Can't open file. Abort!\n"
    exitFailure
  else
    let sb ← readSuperBlock
    use .superblock
    let sb := sb.getD default
    if sb.fsInfo.magic ≠ magicNumber then
      eprint "Magic does not match. Abort!\n"
      release .superblock
      release .image
      exitFailure
    else return sb

/-- The start of every command but `init`. -/
def enter : Printing Superblock := do
  let sb ← openFs
  if !(← index sb.reservedInodesMask rootInodeId) then
    eprint "Root directory doesn't exist. Abort!\n"
    release .superblock
    release .image
    exitFailure
  else return sb

/-- The start of a command that needs the table. -/
def enterTable : Printing (Superblock × DescriptorsTable) := do
  let sb ← enter
  match ← readDescriptorsTable sb with
  | none =>
    eprint "Can't read descriptors_table. Abort!\n"
    leave
    exitFailure
  | some dt => return (sb, dt)

/-- The table is stored. -/
def storeTable (sb : Superblock) (dt : DescriptorsTable) : Printing Unit := do
  if !(← writeDescriptorTable sb dt) then
    eprint "Can't write descriptors_table. Abort!\n"
    leaveTable
    exitFailure

/-! ### `close` and `lseek` -/

/-- `free_descriptor`; its result is not used. -/
def freeDescriptor (dt : DescriptorsTable) (fd : Nat) : Printing DescriptorsTable := do
  if !(← index dt.reservedFd fd) then
    eprint "Can't release same fd twice. Abort!\n"
    return dt
  else return MiniExt.freeDescriptor dt fd

/-- `close_file`. -/
def closeFile (fdToClose : Nat) : Printing Unit := do
  let (sb, dt) ← enterTable
  use .descriptorsTable
  let dt ← freeDescriptor dt fdToClose
  storeTable sb dt
  leaveTable

/-- `lseek_pos`. -/
def lseekPos (fileDescriptor pos : Nat) : Printing Unit := do
  let (sb, dt) ← enterTable
  use .descriptorsTable
  if !(← index dt.reservedFd fileDescriptor) then
    eprint "Descriptor is closed. Abort!\n"
    release .descriptorsTable
    release .superblock
  else if getMaxDataSizeOfAllBlocks sb.fsInfo ≤ pos then
    eprint "Position >= max_data_in_file. Abort!\n"
    release .descriptorsTable
    release .superblock
  else
    storeTable sb { dt with fdToPosition := dt.fdToPosition.set fileDescriptor pos }
    leaveTable

/-! ### `write` and `write_from` -/

/-- The epilogue of `write_to_file`. -/
def storeAll (fileDescriptor : Nat) (s : WriteState) : Printing Unit := do
  use .descriptorsTable
  let dt := { s.dt with fdToPosition := s.dt.fdToPosition.set fileDescriptor s.fdPosition }
  if !(← writeDescriptorTable s.sb dt) then
    eprint "Can't write descriptor table. Abort!\n"
    release .descriptorsTable
    exitReleased
  else
    release .descriptorsTable
    if !(← writeInode .inode s.sb s.inode) then
      eprint "Can't write inode. Abort!\n"
      exitReleased
    else
      release .inode
      if !(← writeSuperBlock s.sb) then
        eprint "Can't write superblock. Abort!\n"
        leave
        exitFailure
      else leave

/-- A turn of its loop: the block takes its piece. -/
def fillBlock (s : WriteState) (block : Block) : Printing WriteState := do
  let maxData := getMaxDataInBlock s.sb.fsInfo
  let positionInBlockData := s.fdPosition % maxData
  let remainSize := maxData - positionInBlockData
  let sizeToWrite := if s.needToWriteSize < remainSize then s.needToWriteSize else remainSize
  use .block
  if block.data.length < positionInBlockData + sizeToWrite ∨ s.data.length < sizeToWrite then
    halt .memoryError
  else
    let block : Block :=
      { block with
        info := { block.info with dataSize := (positionInBlockData + sizeToWrite) % 2 ^ 16 }
        data := memcpy block.data positionInBlockData (s.data.take sizeToWrite) }
    if !(← writeBlock .block s.sb block) then
      eprint "Can't write block. Abort!\n"
      release .block
      exitReleased
    release .block
    return { s with
      fdPosition := (s.fdPosition + sizeToWrite) % 2 ^ 32
      data := s.data.drop sizeToWrite
      totalWritten := s.totalWritten + sizeToWrite
      needToWriteSize := s.needToWriteSize - sizeToWrite }

/-- A turn of its loop: a new block. -/
def appendBlock (s : WriteState) (inodeId newBlockId : Nat) : Printing (WriteState × Block) := do
  acquire .block
  let block :=
    { initBlock s.sb.fsInfo newBlockId inodeId with
      data := List.replicate s.sb.fsInfo.blockSize 0 }
  let _ ← index s.inode.blockIds s.inode.blocksCount
  let inode := { s.inode with
    blockIds := s.inode.blockIds.set s.inode.blocksCount newBlockId
    blocksCount := (s.inode.blocksCount + 1) % 2 ^ 16 }
  if !(← writeInode .inode s.sb inode) then
    eprint "Can't write inode. Abort!\n"
    release .block
    exitReleased
  return ({ s with inode := inode }, block)

/-- The loop of `write_to_file`. -/
def writeLoop (fileDescriptor inodeId size : Nat) :
    (fuel : Nat) → WriteState → Printing WriteState
  | 0, s => return s
  | fuel + 1, s => do
    if s.totalWritten = size then return s
    else
      use .superblock
      use .inode
      let maxData := getMaxDataInBlock s.sb.fsInfo
      if maxData = 0 then halt .abort
      else
        let blockToWritePos := s.fdPosition % 2 ^ 16 / maxData % 2 ^ 16
        if blockToWritePos < s.inode.blocksCount then
          let blockId ← index s.inode.blockIds blockToWritePos
          match ← readBlock .block s.sb blockId with
          | none =>
            eprint "Can't read block. Abort!\n"
            release .descriptorsTable
            exitReleased
            return s
          | some block =>
            let s ← fillBlock s block
            writeLoop fileDescriptor inodeId size fuel s
        else
          let (newBlockId, sb) := reserveBlock s.sb
          let s := { s with sb := sb }
          if newBlockId = sb.fsInfo.blocksCount then
            eprint "Can't create more blocks in FS. Abort!\n"
            storeAll fileDescriptor s
            return s
          else if s.inode.blocksCount = sb.fsInfo.blocksCountInInode then
            eprint "Can't create more blocks in this inode. Abort!\n"
            storeAll fileDescriptor s
            return s
          else
            let (s, block) ← appendBlock s inodeId newBlockId
            let s ← fillBlock s block
            writeLoop fileDescriptor inodeId size fuel s

/-- `write_to_file`. -/
def writeToFile (fileDescriptor : Nat) (data : List UInt8) : Printing (Option Nat) := do
  let sb ← enter
  let size := min data.length (getMaxDataSizeOfAllBlocks sb.fsInfo)
  match ← readDescriptorsTable sb with
  | none =>
    eprint "Can't read descriptors_table. Abort!\n"
    leave
    exitFailure
  | some dt =>
    use .descriptorsTable
    if !(← index dt.reservedFd fileDescriptor) then
      eprint "Trying to write to closed fd. Abort!\n"
      leaveTable
      return none
    else
      let fdPosition ← index dt.fdToPosition fileDescriptor
      let inodeId ← index dt.fdToInode fileDescriptor
      match ← readInode .inode sb inodeId with
      | none =>
        eprint "Can't read inode. Abort!\n"
        leaveTable
        exitFailure
      | some inode =>
        let s ← writeLoop fileDescriptor inodeId size size
          { sb, dt, inode, fdPosition, data, totalWritten := 0, needToWriteSize := size }
        storeAll fileDescriptor s
        printf "Total written: %d\n" [.number s.totalWritten]
        return some s.totalWritten

/-- `write_to_file_from_file`. -/
def writeToFileFromFile (fileDescriptor : Nat) (pathToFile : List UInt8) : Printing Unit := do
  match ← readHostFile pathToFile with
  | none =>
    -- `get_file_size`
    eprint "Can't open file. Abort!"
    return ()
  | some buffer =>
    if buffer.length % 2 ^ 32 = 2 ^ 32 - 1 then
      eprint "Can't read file with data. Abort!\n"
      return ()
    else
      let _ ← writeToFile fileDescriptor (buffer.take (buffer.length % 2 ^ 32))
      return ()

/-! ### `read` and `read_to` -/

/-- The loop of `read_file`. -/
def readLoop (sb : Superblock) (inode : Inode) (size capacity : Nat) :
    (fuel : Nat) → ReadState → Printing ReadState
  | 0, s => return s
  | fuel + 1, s => do
    if s.dest.length = size then return s
    else
      use .superblock
      use .inode
      let maxData := getMaxDataInBlock sb.fsInfo
      if maxData = 0 then halt .abort
      else
        let blockToReadPos := s.fdPosition % 2 ^ 16 / maxData % 2 ^ 16
        if inode.blocksCount < blockToReadPos then return s
        else
          let blockId ← index inode.blockIds blockToReadPos
          match ← readBlock .block sb blockId with
          | none =>
            eprint "Can't read block. Abort!\n"
            release .descriptorsTable
            exitReleased
            return s
          | some block =>
            let positionInBlockData := s.fdPosition % maxData
            let remainRead := (block.info.dataSize + 2 ^ 32 - positionInBlockData) % 2 ^ 32
            if remainRead = 0 then
              release .block
              return s
            else
              let sizeToRead := if s.needToRead < remainRead then s.needToRead else remainRead
              if block.data.length < positionInBlockData + sizeToRead
                  ∨ capacity < s.dest.length + sizeToRead then
                halt .memoryError
              else
                release .block
                readLoop sb inode size capacity fuel
                  { fdPosition := (s.fdPosition + sizeToRead) % 2 ^ 32
                    dest := s.dest ++ (block.data.drop positionInBlockData).take sizeToRead
                    needToRead := s.needToRead - sizeToRead }

/-- `read_file`. -/
def readFile (fileDescriptor size capacity : Nat) : Printing (Option (List UInt8)) := do
  let sb ← enter
  let size := min size (getMaxDataSizeOfAllBlocks sb.fsInfo)
  match ← readDescriptorsTable sb with
  | none =>
    eprint "Can't read descriptors_table. Abort!\n"
    leave
    exitFailure
  | some dt =>
    use .descriptorsTable
    if !(← index dt.reservedFd fileDescriptor) then
      eprint "Trying to read from closed fd. Abort!\n"
      leaveTable
      return none
    else
      let fdPosition ← index dt.fdToPosition fileDescriptor
      let inodeId ← index dt.fdToInode fileDescriptor
      match ← readInode .inode sb inodeId with
      | none =>
        eprint "Can't read inode. Abort!\n"
        leaveTable
        exitFailure
      | some inode =>
        let s ← readLoop sb inode size capacity size
          { fdPosition, dest := [], needToRead := size }
        let dt := { dt with fdToPosition := dt.fdToPosition.set fileDescriptor s.fdPosition }
        if !(← writeDescriptorTable sb dt) then
          eprint "Can't write descriptor table. Abort!\n"
          release .descriptorsTable
          exitReleased
        release .descriptorsTable
        leaveInode
        printf "Total readed: %d\n" [.number s.dest.length]
        return some s.dest

/-- `read_file_to_file`. -/
def readFileToFile (fileDescriptor : Nat) (path : List UInt8) (size : Option Nat) :
    Printing Unit := do
  let sb ← enter
  let maxSize := getMaxDataSizeOfAllBlocks sb.fsInfo
  let maxSize := match size with
    | none => maxSize
    | some size => if maxSize < size then maxSize else size
  leave
  match ← readFile fileDescriptor maxSize maxSize with
  | none => return ()
  | some buffer =>
    if !(← writeHostFile path buffer) then
      eprint "Can't open file to write. Abort!\n"
      return ()
    else
      printf "Written %zd to %s\n" [.number buffer.length, .string path]
      return ()

/-- The branch of `read` in the client, with `data` in its buffer from before. -/
def readCommand (fd size : Nat) (data : List UInt8) : Printing Unit := do
  let readed ← readFile fd size commandBufferLength
  let data := memcpy data 0 (readed.getD [])
  if commandBufferLength ≤ size then halt .memoryError
  else printf "Readed: %s\n" [.string ((data.set size 0).takeWhile (· ≠ 0))]

/-! ### The functions without their prints -/

/-- Opening the image without the messages. -/
@[simp] theorem silent_openFs : openFs.silent = MiniExt.openFs := by
  simp [openFs, MiniExt.openFs]

/-- The start of a command without the messages. -/
@[simp] theorem silent_enter : enter.silent = MiniExt.enter := by
  simp [enter, MiniExt.enter]

/-- The start with the table without the messages. -/
@[simp] theorem silent_enterTable : enterTable.silent = MiniExt.enterTable := by
  simp only [enterTable, MiniExt.enterTable, Prog.silent_bind, silent_enter,
    silent_readDescriptorsTable]
  refine bind_congr fun sb => bind_congr fun read => ?_
  cases read with
  | none => simp
  | some dt => rfl

/-- Storing the table without the messages. -/
@[simp] theorem silent_storeTable (sb : Superblock) (dt : DescriptorsTable) :
    (storeTable sb dt).silent = MiniExt.storeTable sb dt := by
  simp [storeTable, MiniExt.storeTable]

/-- **`close_file`** without its prints. -/
theorem silent_closeFile (fdToClose : Nat) :
    (closeFile fdToClose).silent = MiniExt.closeFile fdToClose := by
  have hfree : ∀ dt : DescriptorsTable, (freeDescriptor dt fdToClose).silent =
      index dt.reservedFd fdToClose >>= fun _ => pure (MiniExt.freeDescriptor dt fdToClose) := by
    intro dt
    simp only [freeDescriptor, Prog.silent_bind, silent_liftM, index]
    rcases hres : dt.reservedFd[fdToClose]? with _ | reserved
    · rfl
    · cases reserved with
      | false => simp [MiniExt.freeDescriptor, hres]
      | true => simp
  simp only [closeFile, MiniExt.closeFile, Prog.silent_bind, silent_enterTable, silent_liftM,
    silent_storeTable, hfree]
  refine bind_congr fun r => bind_congr fun _ => ?_
  unfold index
  cases r.2.reservedFd[fdToClose]? with
  | none => rfl
  | some reserved => rfl

/-- **`lseek_pos`** without its prints. -/
theorem silent_lseekPos (fileDescriptor pos : Nat) :
    (lseekPos fileDescriptor pos).silent = MiniExt.lseekPos fileDescriptor pos := by
  simp [lseekPos, MiniExt.lseekPos]

/-- The epilogue of `write_to_file` without the messages. -/
@[simp] theorem silent_storeAll (fileDescriptor : Nat) (s : WriteState) :
    (storeAll fileDescriptor s).silent = MiniExt.storeAll fileDescriptor s := by
  simp [storeAll, MiniExt.storeAll]

/-- Filling a block without the messages. -/
@[simp] theorem silent_fillBlock (s : WriteState) (block : Block) :
    (fillBlock s block).silent = MiniExt.fillBlock s block := by
  simp [fillBlock, MiniExt.fillBlock]

/-- Appending a block without the messages. -/
@[simp] theorem silent_appendBlock (s : WriteState) (inodeId newBlockId : Nat) :
    (appendBlock s inodeId newBlockId).silent = MiniExt.appendBlock s inodeId newBlockId := by
  simp [appendBlock, MiniExt.appendBlock]

/-- **The loop of `write_to_file`** without the messages. -/
@[simp] theorem silent_writeLoop (fileDescriptor inodeId size fuel : Nat) (s : WriteState) :
    (writeLoop fileDescriptor inodeId size fuel s).silent =
      MiniExt.writeLoop fileDescriptor inodeId size fuel s := by
  induction fuel generalizing s with
  | zero => rfl
  | succ fuel ih =>
    simp only [writeLoop, MiniExt.writeLoop]
    simp only [Prog.silent_ite, Prog.silent_pure, Prog.silent_bind, silent_liftM, silent_eprint,
      pure_bind_silent, silent_storeAll, silent_appendBlock, silent_fillBlock, silent_readBlock, ih]
    refine ite_congr rfl (fun _ => rfl) fun _ => ?_
    refine bind_congr fun _ => bind_congr fun _ => ?_
    refine ite_congr rfl (fun _ => rfl) fun _ => ?_
    refine ite_congr rfl (fun _ => ?_) fun _ => rfl
    refine bind_congr fun _ => bind_congr fun read => ?_
    cases read with
    | none => simp
    | some block => simp [ih]

/-- **`write_to_file`** without its prints. -/
@[simp] theorem silent_writeToFile (fileDescriptor : Nat) (data : List UInt8) :
    (writeToFile fileDescriptor data).silent = MiniExt.writeToFile fileDescriptor data := by
  simp only [writeToFile, MiniExt.writeToFile, Prog.silent_bind, silent_enter,
    silent_readDescriptorsTable]
  refine bind_congr fun sb => bind_congr fun read => ?_
  cases read with
  | none => simp
  | some dt =>
    simp only [Prog.silent_bind, Prog.silent_ite, Prog.silent_pure, silent_liftM, silent_eprint,
      pure_bind_silent, silent_readInode]
    refine bind_congr fun _ => bind_congr fun reserved => ?_
    refine ite_congr rfl (fun _ => rfl) fun _ => ?_
    refine bind_congr fun fdPosition => bind_congr fun inodeId => bind_congr fun read => ?_
    cases read with
    | none => simp
    | some inode => simp

/-- **`write_to_file_from_file`** without its prints. -/
theorem silent_writeToFileFromFile (fileDescriptor : Nat) (pathToFile : List UInt8) :
    (writeToFileFromFile fileDescriptor pathToFile).silent =
      MiniExt.writeToFileFromFile fileDescriptor pathToFile := by
  simp only [writeToFileFromFile, MiniExt.writeToFileFromFile, Prog.silent_bind, silent_liftM]
  refine bind_congr fun read => ?_
  cases read with
  | none => simp
  | some buffer => simp

/-- **The loop of `read_file`** without the messages. -/
@[simp] theorem silent_readLoop (sb : Superblock) (inode : Inode) (size capacity fuel : Nat)
    (s : ReadState) : (readLoop sb inode size capacity fuel s).silent =
      MiniExt.readLoop sb inode size capacity fuel s := by
  induction fuel generalizing s with
  | zero => rfl
  | succ fuel ih =>
    simp only [readLoop, MiniExt.readLoop]
    simp only [Prog.silent_ite, Prog.silent_pure, Prog.silent_bind, silent_liftM, silent_readBlock]
    refine ite_congr rfl (fun _ => rfl) fun _ => ?_
    refine bind_congr fun _ => bind_congr fun _ => ?_
    refine ite_congr rfl (fun _ => rfl) fun _ => ?_
    refine ite_congr rfl (fun _ => rfl) fun _ => ?_
    refine bind_congr fun _ => bind_congr fun read => ?_
    cases read with
    | none => simp
    | some block => simp [ih]

/-- **`read_file`** without its prints. -/
@[simp] theorem silent_readFile (fileDescriptor size capacity : Nat) :
    (readFile fileDescriptor size capacity).silent =
      MiniExt.readFile fileDescriptor size capacity := by
  simp only [readFile, MiniExt.readFile, Prog.silent_bind, silent_enter,
    silent_readDescriptorsTable]
  refine bind_congr fun sb => bind_congr fun read => ?_
  cases read with
  | none => simp
  | some dt =>
    simp only [Prog.silent_bind, Prog.silent_ite, Prog.silent_pure, silent_liftM, silent_eprint,
      pure_bind_silent, silent_readInode]
    refine bind_congr fun _ => bind_congr fun reserved => ?_
    refine ite_congr rfl (fun _ => rfl) fun _ => ?_
    refine bind_congr fun fdPosition => bind_congr fun inodeId => bind_congr fun read => ?_
    cases read with
    | none => simp
    | some inode => simp

/-- **`read_file_to_file`** without its prints. -/
theorem silent_readFileToFile (fileDescriptor : Nat) (path : List UInt8) (size : Option Nat) :
    (readFileToFile fileDescriptor path size).silent =
      MiniExt.readFileToFile fileDescriptor path size := by
  simp only [readFileToFile, MiniExt.readFileToFile, Prog.silent_bind, silent_enter, silent_liftM,
    silent_readFile]
  refine bind_congr fun sb => bind_congr fun _ => bind_congr fun read => ?_
  cases read with
  | none => rfl
  | some buffer =>
    simp only [Prog.silent_bind, silent_liftM]
    refine bind_congr fun written => ?_
    simp

/-- **The branch of `read` in the client** without its prints. -/
theorem silent_readCommand (fd size : Nat) (data : List UInt8) :
    (readCommand fd size data).silent = MiniExt.readCommand fd size := by
  simp [readCommand, MiniExt.readCommand]

end Printing

end MiniExt
