import MiniExt.Image

namespace MiniExt

open Lib

/-!
# What the commands do to an image

Each command as a function on images: how it ends, the image it leaves and, for the
commands that write more than one record, the images its host writes leave on the way.
There are no handles, no buffers and no branches for failed reads here; the modules on the
single commands prove that the programs compute these functions.

* `Image.ls` — how `ls` ends;
* `Image.create` — `create_dir` and `create_file`;
* `Image.openPath`, `Image.closeFd`, `Image.seek` — the descriptor table;
* `Image.writeTurns`, `Image.write` — the loop of `write_to_file`, and its epilogue;
* `Image.readTurns`, `Image.read` — the loop of `read_file`, and its epilogue.
-/

namespace Image

/-! ### Listing -/

/-- How `ls` ends: as its walk does, or in a crash on the block of the directory. -/
def ls (I : Image) (path : List UInt8) : Outcome Stop Unit :=
  match I.store.resolve path with
  | .halted e => .halted e
  | .done none => .done ()
  | .done (some i) =>
    match I.store.firstSlot i with
    | some s => if s.Mixed then .halted .memoryError else .done ()
    | none => .halted .outside

/-! ### Creation -/

/-- The block of a new inode.  A file's block keeps whatever body the slot had. -/
def freshSlot (I : Image) (isFile : Bool) (parent n b : Nat) : Slot :=
  if isFile then
    ⟨⟨b, n, 0, 0⟩, match I.slots b with
      | some s => s.body
      | none => .unwritten⟩
  else
    ⟨⟨b, n, 2, 0⟩, .records [⟨n, nameField defaultFsInfo dotName⟩,
      ⟨parent, nameField defaultFsInfo twoDotsName⟩]⟩

/-- The record of a new inode. -/
def freshInode (isFile : Bool) (n b : Nat) : Inode := ⟨n, 1, isFile, b :: List.replicate 7 0⟩

/-- A new inode `n` with one block `b`, reserved and stored. -/
def alloc (I : Image) (isFile : Bool) (parent n b : Nat) : Image :=
  (((I.setSlot b (I.freshSlot isFile parent n b)).setInode (freshInode isFile n b)).takeInode
    n).takeBlock b

/-- The images the creation of an inode leaves: its block, its record, the masks. -/
def allocTrace (I : Image) (isFile : Bool) (parent n b : Nat) : List Image :=
  [I.setSlot b (I.freshSlot isFile parent n b),
    (I.setSlot b (I.freshSlot isFile parent n b)).setInode (freshInode isFile n b),
    I.alloc isFile parent n b]

/-- A record appended to the first block of directory `p`. -/
def link (I : Image) (p : Nat) (r : BlockRecord) : Image :=
  match I.block p 0 with
  | some (b, s) =>
    I.setSlot b ⟨{ s.info with recordsCount := s.info.recordsCount + 1 },
      .records (s.records ++ [r])⟩
  | none => I

/-- How a creation ends, the image it leaves, and the images on the way to it. -/
structure CreateEnd where
  outcome : Outcome Stop Unit
  image : Image
  trace : List Image

/-- A creation that changes nothing. -/
def unchanged (I : Image) (o : Outcome Stop Unit) : CreateEnd := ⟨o, I, []⟩

/-- Create `name` in directory `p`, once the parent path was walked.  A directory has room
    for six records; the record is written after the inode was stored. -/
def createIn (I : Image) (isFile : Bool) (p : Nat) (name : List UInt8) : CreateEnd :=
  match I.inodes p, I.store.firstSlot p with
  | some inode, some s =>
    if inode.isFile then I.unchanged (.done ())
    else if s.Mixed then I.unchanged (.halted .memoryError)
    else if (s.find name).isSome then I.unchanged (.done ())
    else
      match firstFree I.sb.reservedInodesMask, firstFree I.sb.reservedBlocksMask with
      | some n, some b =>
        let J := I.alloc isFile p n b
        if s.info.recordsCount = 6 then
          -- only `create_file` returns here
          ⟨if isFile then .done () else .halted .memoryError, J, I.allocTrace isFile p n b⟩
        else if 16 ≤ name.length then
          ⟨.halted .memoryError, J, I.allocTrace isFile p n b⟩
        else
          let K := J.link p ⟨n, nameField defaultFsInfo name⟩
          ⟨.done (), K, I.allocTrace isFile p n b ++ [K]⟩
      -- nothing was stored, but the released inode is used
      | _, _ => I.unchanged (.halted .memoryError)
  | _, _ => I.unchanged (.halted .outside)

/-- `create_dir` and `create_file`. -/
def create (I : Image) (isFile : Bool) (path : List UInt8) : CreateEnd :=
  match splitPath path with
  | .halted e => I.unchanged (.halted e)
  | .done none => I.unchanged (.done ())
  | .done (some (parentPath, name)) =>
    match I.store.resolve parentPath with
    | .halted e => I.unchanged (.halted e)
    | .done none => I.unchanged (.done ())
    | .done (some p) => I.createIn isFile p name

/-- The rest of a creation, at the directory the path leads to. -/
theorem create_eq (I : Image) (isFile : Bool) (path : List UInt8) :
    I.create isFile path =
      match I.store.site path with
      | .halted e => I.unchanged (.halted e)
      | .done none => I.unchanged (.done ())
      | .done (some (p, _, name)) => I.createIn isFile p name := by
  unfold create Store.site
  rcases splitPath path with (_ | ⟨parentPath, name⟩) | e
  · rfl
  · simp only
    rcases I.store.resolve parentPath with (_ | p) | e
    · rfl
    · simp only [store_inodes]
      rcases hget : I.inodes p with _ | inode
      · simp only [createIn, hget]
      · rcases hs : I.store.firstSlot p with _ | s
        · simp only [createIn, hget, hs]
        · simp only
          by_cases hkind : inode.isFile = true
          · simp only [createIn, hget, hs, hkind, if_true]
          · simp only [hkind, if_false, Bool.false_eq_true]
    · rfl
  · rfl

/-! ### Descriptors -/

/-- Open `name` in directory `p`. -/
def openIn (I : Image) (p : Nat) (name : List UInt8) : Outcome Stop (Option Nat) × Image :=
  match I.inodes p, I.store.firstSlot p with
  | some inode, some s =>
    if inode.isFile then (.done none, I)
    else if s.Mixed then (.halted .memoryError, I)
    else
      match s.find name with
      | none => (.done none, I)
      | some i =>
        match reserveDescriptor I.dt i with
        | none => (.done none, I)
        | some (fd, dt) => (.done (some fd), I.setTable dt)
  | _, _ => (.halted .outside, I)

/-- `open_file`. -/
def openPath (I : Image) (path : List UInt8) : Outcome Stop (Option Nat) × Image :=
  match splitPath path with
  | .halted e => (.halted e, I)
  | .done none => (.done none, I)
  | .done (some (parentPath, name)) =>
    match I.store.resolve parentPath with
    | .halted e => (.halted e, I)
    | .done none => (.done none, I)
    | .done (some p) => I.openIn p name

/-- The rest of an opening, at the directory the path leads to. -/
theorem openPath_eq (I : Image) (path : List UInt8) :
    I.openPath path =
      match I.store.site path with
      | .halted e => (.halted e, I)
      | .done none => (.done none, I)
      | .done (some (p, _, name)) => I.openIn p name := by
  unfold openPath Store.site
  rcases splitPath path with (_ | ⟨parentPath, name⟩) | e
  · rfl
  · simp only
    rcases I.store.resolve parentPath with (_ | p) | e
    · rfl
    · simp only [store_inodes]
      rcases hget : I.inodes p with _ | inode
      · simp only [openIn, hget]
      · rcases hs : I.store.firstSlot p with _ | s
        · simp only [openIn, hget, hs]
        · simp only
          by_cases hkind : inode.isFile = true
          · simp only [openIn, hget, hs, hkind, if_true]
          · simp only [hkind, if_false, Bool.false_eq_true]
    · rfl
  · rfl

/-- `close_file`. -/
def closeFd (I : Image) (fd : Nat) : Outcome Stop Unit × Image :=
  if fd < 16 then (.done (), I.setTable (freeDescriptor I.dt fd))
  else (.halted .memoryError, I)

/-- The table after the position of a descriptor was set. -/
def setPosition (I : Image) (fd pos : Nat) : Image :=
  I.setTable { I.dt with fdToPosition := I.dt.fdToPosition.set fd pos }

/-- `lseek_pos`. -/
def seek (I : Image) (fd pos : Nat) : Outcome Stop Unit × Image :=
  match I.dt.reservedFd[fd]? with
  | none => (.halted .memoryError, I)
  | some false => (.done (), I)
  | some true => if 968 ≤ pos then (.done (), I) else (.done (), I.setPosition fd pos)

/-- `lseek` moves a position at most. -/
theorem seek_image (I : Image) (fd pos : Nat) :
    (I.seek fd pos).2 = I ∨ (I.seek fd pos).2 = I.setPosition fd pos := by
  unfold seek
  split
  · exact Or.inl rfl
  · exact Or.inl rfl
  · split
    · exact Or.inl rfl
    · exact Or.inr rfl

/-! ### Writing -/

/-- How the loop of `write_to_file` ends: everything was written, no block could be
    appended, or a block with records was met, which stops the program. -/
inductive Ending where
  | complete | exhausted
  | rejected (e : Stop)
  deriving DecidableEq, Repr

/-- The loop was stopped at a block with records. -/
def Ending.isRejected : Ending → Bool
  | .rejected _ => true
  | _ => false

/-- The end of the loop: the image (with the superblock in memory), the position, what was
    not written, and the images the writes of the loop leave. -/
structure WriteEnd where
  image : Image
  pos : Nat
  rest : List UInt8
  ending : Ending
  trace : List Image

/-- The end of a loop whose first turn left some images. -/
def WriteEnd.after (Js : List Image) (r : WriteEnd) : WriteEnd := { r with trace := Js ++ r.trace }

/-- Inode `inode` after block `b` was appended to its list. -/
def grown (inode : Inode) (b : Nat) : Inode :=
  { inode with
    blockIds := inode.blockIds.set inode.blocksCount b
    blocksCount := inode.blocksCount + 1 }

/-- A fresh data block of inode `i` with a piece stored at an offset. -/
def appendedSlot (i b offset : Nat) (piece : List UInt8) : Slot :=
  Slot.fill ⟨⟨b, i, 0, 0⟩, .unwritten⟩ offset piece

/-- The loop of `write_to_file` on inode `i`, from a position on. -/
def writeTurns (i : Nat) : (fuel : Nat) → Image → (pos : Nat) → List UInt8 → WriteEnd
  | 0, I, pos, data => ⟨I, pos, data, .complete, []⟩
  | fuel + 1, I, pos, data =>
    if data = [] then ⟨I, pos, [], .complete, []⟩
    else
      match I.inodes i with
      | none => ⟨I, pos, data, .rejected .exit, []⟩
      | some inode =>
        let offset := pos % 121
        let piece := data.take (121 - offset)
        let rest := data.drop (121 - offset)
        if pos / 121 < inode.blocksCount then
          match I.block i (pos / 121) with
          | none => ⟨I, pos, data, .rejected .exit, []⟩
          | some (b, s) =>
            if s.info.recordsCount = 0 then
              let J := I.setSlot b (s.fill offset piece)
              (writeTurns i fuel J (pos + piece.length) rest).after [J]
            else if s.info.dataSize = 0 then
              -- the header of a directory block is stored before the block is rejected
              let J := I.setSlot b ⟨{ s.info with dataSize := offset + piece.length }, s.body⟩
              ⟨J, pos, data, .rejected .exit, [J]⟩
            -- `read_block` crashes on the header that an earlier rejected write left
            else ⟨I, pos, data, .rejected .memoryError, []⟩
        else
          match firstFree I.sb.reservedBlocksMask with
          | none => ⟨I, pos, data, .exhausted, []⟩
          | some b =>
            -- the block stays reserved when the inode has no entry for it
            if inode.blocksCount = 8 then ⟨I.takeBlock b, pos, data, .exhausted, []⟩
            else
              let J := (I.takeBlock b).setInode (grown inode b)
              let K := J.setSlot b (appendedSlot i b offset piece)
              (writeTurns i fuel K (pos + piece.length) rest).after [J, K]

/-- How `write_to_file` ends, the store it leaves, and the stores its host writes leave. -/
structure WriteCommandEnd where
  outcome : Outcome Stop (Option Nat)
  store : Store
  trace : List Store

/-- The epilogue of `write_to_file`: the position, the inode and the superblock are stored.
    An exhausted loop has run it once already, and the second run uses a released table. -/
def finishWrite (sb : Superblock) (fd size : Nat) (r : WriteEnd) : WriteCommandEnd :=
  let loop := r.trace.map (·.onDisk sb)
  let J := r.image.setPosition fd r.pos
  match r.ending with
  | .complete => ⟨.done (some size), J.store, loop ++ [J.onDisk sb, J.onDisk sb, J.store]⟩
  | .exhausted => ⟨.halted .memoryError, J.store, loop ++ [J.onDisk sb, J.onDisk sb, J.store]⟩
  | .rejected e => ⟨.halted e, r.image.onDisk sb, loop⟩

/-- The image at the end of `write_to_file`: a rejected write ends before its epilogue. -/
def WriteEnd.settled (r : WriteEnd) (fd : Nat) : Image :=
  if r.ending.isRejected then r.image else r.image.setPosition fd r.pos

/-- The image `write_to_file` leaves. -/
def written (I : Image) (fd : Nat) (data : List UInt8) : Image :=
  let data := data.take 968
  match I.dt.reservedFd[fd]?, I.dt.fdToInode[fd]?, I.dt.fdToPosition[fd]? with
  | some true, some i, some pos => (writeTurns i data.length I pos data).settled fd
  | _, _, _ => I

/-- `write_to_file`. -/
def write (I : Image) (fd : Nat) (data : List UInt8) : WriteCommandEnd :=
  let data := data.take 968
  match I.dt.reservedFd[fd]?, I.dt.fdToInode[fd]?, I.dt.fdToPosition[fd]? with
  | some true, some i, some pos =>
    finishWrite I.sb fd data.length (writeTurns i data.length I pos data)
  | some false, _, _ => ⟨.done none, I.store, []⟩
  | _, _, _ => ⟨.halted .memoryError, I.store, []⟩

/-! ### Reading -/

/-- The loop of `read_file` on an inode, into a buffer of `capacity` bytes: the bytes
    copied and the position reached.  `need` bytes are still wanted. -/
def readTurns (I : Image) (i capacity : Nat) : (fuel : Nat) → (pos : Nat) → (dest : List UInt8) →
    (need : Nat) → Outcome Stop (List UInt8 × Nat)
  | 0, pos, dest, _ => .done (dest, pos)
  | fuel + 1, pos, dest, need =>
    if need = 0 then .done (dest, pos)
    else
      match I.inodes i with
      | none => .halted .outside
      | some inode =>
        if inode.blocksCount < pos / 121 then .done (dest, pos)
        else
          match inode.blockIds[pos / 121]? with
          | none => .halted .memoryError
          | some b =>
            match I.slots b with
            | none => .halted .outside
            | some s =>
              if s.Mixed then .halted .memoryError
              else
                -- the difference is an unsigned number
                let remain := (s.info.dataSize + 2 ^ 32 - pos % 121) % 2 ^ 32
                if remain = 0 then .done (dest, pos)
                else
                  let n := if need < remain then need else remain
                  if 121 < pos % 121 + n ∨ capacity < dest.length + n then .halted .memoryError
                  else
                    I.readTurns i capacity fuel (pos + n)
                      (dest ++ (s.buffer.drop (pos % 121)).take n) (need - n)

/-- `read_file` into a buffer of `capacity` bytes. -/
def read (I : Image) (fd size capacity : Nat) : Outcome Stop (Option (List UInt8)) × Image :=
  let size := min size 968
  match I.dt.reservedFd[fd]?, I.dt.fdToInode[fd]?, I.dt.fdToPosition[fd]? with
  | some true, some i, some pos =>
    match I.readTurns i capacity size pos [] size with
    | .done (dest, pos') => (.done (some dest), I.setPosition fd pos')
    | .halted e => (.halted e, I)
  | some false, _, _ => (.done none, I)
  | _, _, _ => (.halted .memoryError, I)

/-- So does `read`. -/
theorem read_image (I : Image) (fd size capacity : Nat) :
    (I.read fd size capacity).2 = I ∨
      ∃ pos, (I.read fd size capacity).2 = I.setPosition fd pos := by
  unfold read
  simp only
  split
  · split
    · exact Or.inr ⟨_, rfl⟩
    · exact Or.inl rfl
  · exact Or.inl rfl
  · exact Or.inl rfl

end Image

end MiniExt
