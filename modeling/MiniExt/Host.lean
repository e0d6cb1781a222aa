import MiniExt.Utils

namespace MiniExt

open Lib

/-!
# The host

The commands reach the outside world through a fixed set of calls: they open the image,
read and write its records, read and write other host files, and acquire, use and release
the objects of one command (the open image, the superblock, …).  This file fixes that
interface and gives it its meaning over a **record store**: an image seen as its
superblock, its descriptor table, one record per inode and one slot per block.

* `HostCall`, `ExtProg` — the interface, and programs over it;
* `Store` — the image, record by record;
* `HostFiles` — the files of the host, and which of their paths lead to the image;
* `Machine` — an image, the host files, the live objects of the running command and the
  images its host writes have left so far;
* `hostHandler` — the meaning of every call; no host I/O fails here.
-/

/-! ### The interface -/

/-- The objects of one command that are released by hand.  The recursive path walk has an
    inode and a block at each depth. -/
inductive Handle where
  | image | superblock | descriptorsTable | inode | block
  | newInode | newBlock | lookupBlock
  | walkInode (depth : Nat) | walkBlock (depth : Nat)
  deriving DecidableEq, Repr

/-- How a `read_block` ends: with a block; with a header that could not be read; on a header that
    counts both records and data, where `destruct_block` looks for the records before there are
    any; or on a record that could not be read, whose path `read_block_record` frees and
    `destruct_block` frees once more. -/
inductive ReadBlockResult where
  | read (block : Block)
  | failed | mixed | destructed
  deriving DecidableEq, Repr

/-- How a `write_block` ends: stored; failed in its header or its data; rejected, since the block
    carries both records and data; or failed in a record, whose path `write_block_record` frees
    and `destruct_block` frees once more. -/
inductive WriteBlockResult where
  | stored | failed | rejected | destructed
  deriving DecidableEq, Repr

/-- The calls of a command. -/
inductive HostCall where
  | openImage (truncate : Bool)
  | acquire (h : Handle)
  | use (h : Handle)
  | release (h : Handle)
  | readSuperBlock
  | writeSuperBlock (sb : Superblock)
  | readDescriptorsTable (info : FsInfo)
  | writeDescriptorTable (info : FsInfo) (dt : DescriptorsTable)
  | readInode (info : FsInfo) (inodeId : Nat)
  | writeInode (info : FsInfo) (inode : Inode)
  | readBlock (info : FsInfo) (blockId : Nat)
  | writeBlock (info : FsInfo) (block : Block)
  | readHostFile (path : List UInt8)
  | writeHostFile (path bytes : List UInt8)

/-- The type of the answer to a call: `none`, `false` stand for a returned `-1`. -/
def HostCall.Answer : HostCall → Type
  | .openImage _ => Bool
  | .acquire _ | .use _ | .release _ => Unit
  | .readSuperBlock => Option Superblock
  | .writeSuperBlock _ => Bool
  | .readDescriptorsTable _ => Option DescriptorsTable
  | .writeDescriptorTable _ _ => Bool
  | .readInode _ _ => Option Inode
  | .writeInode _ _ => Bool
  | .readBlock _ _ => ReadBlockResult
  | .writeBlock _ _ => WriteBlockResult
  | .readHostFile _ => Option (List UInt8)
  | .writeHostFile _ _ => Bool

/-- The host of a command. -/
def host : Interface := ⟨HostCall, HostCall.Answer⟩

/-- A program of the file system. -/
abbrev ExtProg (α : Type) := Prog host Stop α

/-- The program stops here. -/
def halt {α : Type} (e : Stop) : ExtProg α := .halt e

/-- `exit(EXIT_FAILURE)`. -/
def exitFailure {α : Type} : ExtProg α := .halt .exit

/-- An access to an array of the program: out of range, it is a memory error. -/
def index {α : Type} (xs : List α) (i : Nat) : ExtProg α :=
  match xs[i]? with
  | some x => pure x
  | none => halt .memoryError

/-- Make one host call. -/
def ask (c : HostCall) : ExtProg c.Answer := Prog.perform (I := host) c

/-! ### Handles -/

/-- Allocate an object, or open the image. -/
def acquire (h : Handle) : ExtProg Unit := ask (.acquire h)

/-- Use an object. -/
def use (h : Handle) : ExtProg Unit := ask (.use h)

/-- Release an object, or close the image. -/
def release (h : Handle) : ExtProg Unit := ask (.release h)

/-! ### Single calls, with the type of their answer -/

/-- Open the image file, and truncate it or not. -/
def askOpen (truncate : Bool) : ExtProg Bool := ask (.openImage truncate)

/-- Read the superblock. -/
def askReadSuperBlock : ExtProg (Option Superblock) := ask .readSuperBlock

/-- Write the superblock. -/
def askWriteSuperBlock (sb : Superblock) : ExtProg Bool := ask (.writeSuperBlock sb)

/-- Read the descriptor table. -/
def askReadTable (info : FsInfo) : ExtProg (Option DescriptorsTable) :=
  ask (.readDescriptorsTable info)

/-- Write the descriptor table. -/
def askWriteTable (info : FsInfo) (dt : DescriptorsTable) : ExtProg Bool :=
  ask (.writeDescriptorTable info dt)

/-- Read an inode. -/
def askReadInode (info : FsInfo) (inodeId : Nat) : ExtProg (Option Inode) :=
  ask (.readInode info inodeId)

/-- Write an inode. -/
def askWriteInode (info : FsInfo) (inode : Inode) : ExtProg Bool := ask (.writeInode info inode)

/-- Read a block. -/
def askReadBlock (info : FsInfo) (blockId : Nat) : ExtProg ReadBlockResult :=
  ask (.readBlock info blockId)

/-- Write a block. -/
def askWriteBlock (info : FsInfo) (block : Block) : ExtProg WriteBlockResult :=
  ask (.writeBlock info block)

/-- Read a host file. -/
def readHostFile (path : List UInt8) : ExtProg (Option (List UInt8)) := ask (.readHostFile path)

/-- Write a host file. -/
def writeHostFile (path bytes : List UInt8) : ExtProg Bool := ask (.writeHostFile path bytes)

/-! ### Codecs

Each reads or writes one structure through the open image and the superblock; a
successful read makes the structure live. -/

/-- `open` of the image, with the descriptor as a live object. -/
def openImage (truncate : Bool) : ExtProg Bool := do
  let opened ← askOpen truncate
  if opened then acquire .image
  return opened

/-- `read_super_block`. -/
def readSuperBlock : ExtProg (Option Superblock) := do
  use .image
  let sb ← askReadSuperBlock
  if sb.isSome then acquire .superblock
  return sb

/-- `write_super_block`. -/
def writeSuperBlock (sb : Superblock) : ExtProg Bool := do
  use .image
  use .superblock
  askWriteSuperBlock sb

/-- `read_descriptors_table`. -/
def readDescriptorsTable (sb : Superblock) : ExtProg (Option DescriptorsTable) := do
  use .image
  use .superblock
  let dt ← askReadTable sb.fsInfo
  if dt.isSome then acquire .descriptorsTable
  return dt

/-- `write_descriptor_table`. -/
def writeDescriptorTable (sb : Superblock) (dt : DescriptorsTable) : ExtProg Bool := do
  use .image
  use .superblock
  use .descriptorsTable
  askWriteTable sb.fsInfo dt

/-- `read_inode`. -/
def readInode (h : Handle) (sb : Superblock) (inodeId : Nat) : ExtProg (Option Inode) := do
  use .image
  use .superblock
  let inode ← askReadInode sb.fsInfo inodeId
  if inode.isSome then acquire h
  return inode

/-- `write_inode`. -/
def writeInode (h : Handle) (sb : Superblock) (inode : Inode) : ExtProg Bool := do
  use .image
  use .superblock
  use h
  askWriteInode sb.fsInfo inode

/-- `read_block`.  It returns `-1` only when the header cannot be read. -/
def readBlock (h : Handle) (sb : Superblock) (blockId : Nat) : ExtProg (Option Block) := do
  use .image
  use .superblock
  match ← askReadBlock sb.fsInfo blockId with
  | .read block => do
    acquire h
    return some block
  | .failed => return none
  -- `destruct_block` runs over `block_records`, which is still `NULL`
  | .mixed => halt .memoryError
  -- a path that is free is freed
  | .destructed => do
    release h
    halt .memoryError

/-- `write_block`.  After a failed record it has freed a path twice. -/
def writeBlock (h : Handle) (sb : Superblock) (block : Block) : ExtProg Bool := do
  use .image
  use .superblock
  use h
  match ← askWriteBlock sb.fsInfo block with
  | .stored => return true
  | .failed | .rejected => return false
  | .destructed => do
    release h
    release h
    halt .memoryError

/-! ### The record store -/

/-- What the last write of a block's body left in its slot. -/
inductive Body where
  | unwritten
  | records (rs : List BlockRecord)
  | data (bytes : List UInt8)
  deriving DecidableEq, Repr

/-- A block on disk. -/
structure Slot where
  info : BlockInfo
  body : Body
  deriving DecidableEq, Repr

/-- An image of the default geometry, record by record; `none` where nothing was written. -/
structure Store where
  superblock : Option Superblock
  descriptorsTable : Option DescriptorsTable
  inodes : Nat → Option Inode
  slots : Nat → Option Slot

namespace Store

/-- The image after `O_TRUNC`. -/
def blank : Store := ⟨none, none, fun _ => none, fun _ => none⟩

/-- Change one block slot. -/
def setSlot (st : Store) (b : Nat) (s : Slot) : Store :=
  { st with slots := fun x => if x = b then some s else st.slots x }

/-- Change one inode record. -/
def setInode (st : Store) (inode : Inode) : Store :=
  { st with inodes := fun x => if x = inode.id then some inode else st.inodes x }

/-- The data buffer after the first `data_size` bytes of a body were read into it. -/
def dataBuffer (info : FsInfo) (bytes : List UInt8) : List UInt8 :=
  memcpy (List.replicate (maxSizeOfData info) 0) 0 bytes

/-- `read_block`: a header that counts both records and data comes first. -/
def readBlock (st : Store) (info : FsInfo) (blockId : Nat) : Outcome Stop ReadBlockResult :=
  match st.slots blockId with
  | none => .halted .outside
  | some s =>
    if s.info.recordsCount ≠ 0 ∧ s.info.dataSize ≠ 0 then .done .mixed
    else if s.info.recordsCount ≠ 0 then
      match s.body with
      | .records rs =>
        if s.info.recordsCount ≤ rs.length then
          .done (.read ⟨s.info, some (rs.take s.info.recordsCount), dataBuffer info []⟩)
        else .halted .outside
      | _ => .halted .outside
    else if s.info.dataSize ≠ 0 then
      if maxSizeOfData info < s.info.dataSize then .halted .memoryError
      else
        match s.body with
        | .data bytes =>
          .done (.read ⟨s.info, none, dataBuffer info (bytes.take s.info.dataSize)⟩)
        | _ => .halted .outside
    else .done (.read ⟨s.info, none, dataBuffer info []⟩)

/-- The slot after the header of `block` was written: the body is still the old one. -/
def headerWritten (st : Store) (block : Block) : Store :=
  st.setSlot block.info.blockId
    ⟨block.info, match st.slots block.info.blockId with
      | some s => s.body
      | none => .unwritten⟩

/-- `write_block`: the header is written first; a block that carries both records and data
    is rejected after that. -/
def writeBlock (st : Store) (info : FsInfo) (block : Block) :
    Outcome Stop WriteBlockResult × Store :=
  if info.blocksCount ≤ block.info.blockId then (.halted .outside, st)
  else
    let st := st.headerWritten block
    if block.info.recordsCount ≠ 0 ∧ block.info.dataSize ≠ 0 then (.done .rejected, st)
    else
      match block.records with
      | some rs =>
        if rs.length < block.info.recordsCount then (.halted .memoryError, st)
        else if maxSizeOfData info < block.info.recordsCount * sizeofBlockRecord info then
          (.halted .outside, st)
        else if block.info.recordsCount = 0 then (.done .stored, st)
        else
          (.done .stored, st.setSlot block.info.blockId
            ⟨block.info, .records (rs.take block.info.recordsCount)⟩)
      | none =>
        if block.info.dataSize = 0 then (.done .stored, st)
        else if block.data.length < maxSizeOfData info then (.halted .memoryError, st)
        else
          (.done .stored, st.setSlot block.info.blockId
            ⟨block.info, .data (block.data.take (maxSizeOfData info))⟩)

end Store

/-! ### The machine -/

/-- The files of the host.  `file` says which one a path leads to: `a` and `./a` are one file.
    `content` is what a file holds, if it is there, and `image` is the image file itself: of it
    `content` says what a read gives when the command starts. -/
structure HostFiles where
  file : List UInt8 → Nat
  image : Nat
  content : Nat → Option (List UInt8)

/-- What the file at a path holds. -/
def HostFiles.held (files : HostFiles) (path : List UInt8) : Option (List UInt8) :=
  files.content (files.file path)

instance : CoeFun HostFiles fun _ => List UInt8 → Option (List UInt8) := ⟨HostFiles.held⟩

/-- The path leads to the image file. -/
def HostFiles.isImage (files : HostFiles) (path : List UInt8) : Bool :=
  files.file path == files.image

/-- The state a command runs in.  `log` keeps the image each host write of the command
    left, the last one first. -/
structure Machine where
  store : Store
  files : HostFiles
  live : List Handle
  log : List Store

/-- The machine after a host write. -/
def Machine.put (m : Machine) (st : Store) : Machine :=
  { m with store := st, log := st :: m.log }

/-- The host files after bytes were written over the beginning of the one at a path. -/
def overwrite (files : HostFiles) (path bytes : List UInt8) : HostFiles :=
  { files with
    content := fun n =>
      if n = files.file path then some (memcpy ((files path).getD []) 0 bytes)
      else files.content n }

/-- Every path to that file then holds the new bytes, and every other path what it held. -/
theorem overwrite_held (files : HostFiles) (path bytes p : List UInt8) :
    overwrite files path bytes p =
      if files.file p = files.file path then some (memcpy ((files path).getD []) 0 bytes)
      else files p := rfl

/-- The meaning of the host calls.  Host I/O does not fail; a use or a release of an
    object that is not live is a memory error; a call outside the default geometry, the read of
    a record that was never written, or bytes written over the image file have no answer. -/
def hostHandler : Handler host Machine Stop
  | .openImage truncate, m =>
    (.done true, if truncate then { m with store := .blank } else m)
  | .acquire h, m => (.done (), { m with live := h :: m.live })
  | .use h, m => if h ∈ m.live then (.done (), m) else (.halted .memoryError, m)
  | .release h, m =>
    if h ∈ m.live then (.done (), { m with live := m.live.erase h })
    else (.halted .memoryError, m)
  | .readSuperBlock, m =>
    match m.store.superblock with
    | some sb => (.done (some sb), m)
    | none => (.halted .outside, m)
  | .writeSuperBlock sb, m =>
    if sb.fsInfo = defaultFsInfo then (.done true, m.put { m.store with superblock := some sb })
    else (.halted .outside, m)
  | .readDescriptorsTable info, m =>
    match m.store.descriptorsTable with
    | some dt => if info = defaultFsInfo then (.done (some dt), m) else (.halted .outside, m)
    | none => (.halted .outside, m)
  | .writeDescriptorTable info dt, m =>
    if info = defaultFsInfo then
      (.done true, m.put { m.store with descriptorsTable := some dt })
    else (.halted .outside, m)
  | .readInode info inodeId, m =>
    match m.store.inodes inodeId with
    | some inode =>
      if info = defaultFsInfo then (.done (some inode), m) else (.halted .outside, m)
    | none => (.halted .outside, m)
  | .writeInode info inode, m =>
    if info = defaultFsInfo ∧ inode.id < info.inodesCount then
      (.done true, m.put (m.store.setInode inode))
    else (.halted .outside, m)
  | .readBlock info blockId, m =>
    if info = defaultFsInfo then (m.store.readBlock info blockId, m)
    else (.halted .outside, m)
  | .writeBlock info block, m =>
    if info = defaultFsInfo then
      ((m.store.writeBlock info block).1, m.put (m.store.writeBlock info block).2)
    else (.halted .outside, m)
  | .readHostFile path, m => (.done (m.files path), m)
  | .writeHostFile path bytes, m =>
    if m.files.isImage path then (.halted .outside, m)
    else (.done true, { m with files := overwrite m.files path bytes })

end MiniExt
