import MiniExt.Run
import MiniExt.Lib.Chunks
import MiniExt.Lib.DirTree

namespace MiniExt

open Lib

/-!
# Images and what they record

A `Store` may lack any of its parts; an `Image` has a superblock and a descriptor table.
This file reads an image the way its invariants talk about it, and names the single changes
a host write makes to it.

* `Slot.records`, `Slot.find`, `Slot.visible`, `Slot.buffer` — what one block holds;
* `Store.InodeReserved`, `Store.IsDir`, `Store.records`, `Store.tree` — the directory tree;
* `Store.Descriptor`, `Store.OpenFile` — the descriptor table;
* `Store.chunks` — the data of a file, block by block;
* `Store.walk`, `Store.site` — what the path walk computes, without its handles;
* `Image.setSlot`, `Image.setInode`, `Image.setTable`, `Image.takeBlock`, … — the changes.
-/

/-! ### Blocks on disk -/

namespace Slot

/-- The header counts both records and data: `read_block` rejects the block. -/
def Mixed (s : Slot) : Prop := s.info.recordsCount ≠ 0 ∧ s.info.dataSize ≠ 0

instance (s : Slot) : Decidable s.Mixed := inferInstanceAs (Decidable (_ ∧ _))

/-- The directory records of a block. -/
def records (s : Slot) : List BlockRecord :=
  match s.body with
  | .records rs => rs.take s.info.recordsCount
  | _ => []

/-- The inode the first record with a given name leads to. -/
def find (s : Slot) (name : List UInt8) : Option Nat :=
  (s.records.find? (·.path = nameField defaultFsInfo name)).map (·.inodeId)

/-- The data bytes of a block that its header counts. -/
def visible (s : Slot) : List UInt8 :=
  match s.body with
  | .data bytes => bytes.take s.info.dataSize
  | _ => []

/-- The data buffer of a block in memory: the counted bytes, then zeros. -/
def buffer (s : Slot) : List UInt8 :=
  s.visible ++ List.replicate (121 - s.visible.length) 0

/-- The block after a piece of data was stored in it at an offset. -/
def fill (s : Slot) (offset : Nat) (piece : List UInt8) : Slot :=
  ⟨{ s.info with dataSize := offset + piece.length }, .data (memcpy s.buffer offset piece)⟩

end Slot

/-- The blocks an inode lists. -/
def Inode.blocks (inode : Inode) : List Nat := inode.blockIds.take inode.blocksCount

/-- How many blocks a write of `n` bytes at a position appends, as long as there is room: a
    block for each turn that does not find one in the list. -/
def Inode.blocksNeeded (inode : Inode) (pos n : Nat) : Nat :=
  if n = 0 then 0 else (pos % 121 + n + 120) / 121 - (inode.blocksCount - pos / 121)

/-! ### What an image records -/

namespace Store

/-- Inode `i` is marked in `reserved_inodes_mask`. -/
def InodeReserved (st : Store) (i : Nat) : Prop :=
  match st.superblock with
  | some sb => Taken sb.reservedInodesMask i
  | none => False

/-- Block `b` is marked in `reserved_blocks_mask`. -/
def BlockReserved (st : Store) (b : Nat) : Prop :=
  match st.superblock with
  | some sb => Taken sb.reservedBlocksMask b
  | none => False

instance (st : Store) (i : Nat) : Decidable (st.InodeReserved i) :=
  match h : st.superblock with
  | some sb => decidable_of_iff (Taken sb.reservedInodesMask i) (by simp [InodeReserved, h])
  | none => isFalse (by simp [InodeReserved, h])

instance (st : Store) (b : Nat) : Decidable (st.BlockReserved b) :=
  match h : st.superblock with
  | some sb => decidable_of_iff (Taken sb.reservedBlocksMask b) (by simp [BlockReserved, h])
  | none => isFalse (by simp [BlockReserved, h])

/-- The record of inode `i` has a given kind. -/
def HasKind (st : Store) (isFile : Bool) (i : Nat) : Prop :=
  ∃ inode, st.inodes i = some inode ∧ inode.isFile = isFile

instance (st : Store) (isFile : Bool) (i : Nat) : Decidable (st.HasKind isFile i) :=
  match h : st.inodes i with
  | some inode =>
    if hk : inode.isFile = isFile then isTrue ⟨inode, h, hk⟩
    else isFalse fun ⟨_, h', hk'⟩ => hk (by rw [h] at h'; cases h'; exact hk')
  | none => isFalse fun ⟨_, h', _⟩ => by rw [h] at h'; cases h'

/-- A reserved directory. -/
def IsDir (st : Store) (d : Nat) : Prop := st.InodeReserved d ∧ st.HasKind false d

/-- A reserved regular file. -/
def IsFile (st : Store) (i : Nat) : Prop := st.InodeReserved i ∧ st.HasKind true i

instance (st : Store) (d : Nat) : Decidable (st.IsDir d) := inferInstanceAs (Decidable (_ ∧ _))
instance (st : Store) (i : Nat) : Decidable (st.IsFile i) := inferInstanceAs (Decidable (_ ∧ _))

/-- Descriptor `fd` is reserved for inode `i`, at position `pos`. -/
def Descriptor (st : Store) (fd i pos : Nat) : Prop :=
  match st.descriptorsTable with
  | some dt => dt.reservedFd[fd]? = some true ∧ dt.fdToInode[fd]? = some i ∧
      dt.fdToPosition[fd]? = some pos
  | none => False

instance (st : Store) (fd i pos : Nat) : Decidable (st.Descriptor fd i pos) :=
  match h : st.descriptorsTable with
  | some dt => decidable_of_iff (dt.reservedFd[fd]? = some true ∧ dt.fdToInode[fd]? = some i ∧
      dt.fdToPosition[fd]? = some pos) (by simp [Descriptor, h])
  | none => isFalse (by simp [Descriptor, h])

/-- Descriptor `fd` is reserved for the regular file `i`, at position `pos`. -/
def OpenFile (st : Store) (fd i pos : Nat) (inode : Inode) : Prop :=
  st.Descriptor fd i pos ∧ st.inodes i = some inode ∧ inode.isFile = true

instance (st : Store) (fd i pos : Nat) (inode : Inode) : Decidable (st.OpenFile fd i pos inode) :=
  inferInstanceAs (Decidable (_ ∧ _))

/-- How many blocks are free. -/
def freeBlocks (st : Store) : Nat :=
  match st.superblock with
  | some sb => free sb.reservedBlocksMask
  | none => 0

/-- How many inodes are free. -/
def freeInodes (st : Store) : Nat :=
  match st.superblock with
  | some sb => free sb.reservedInodesMask
  | none => 0

/-- The blocks inode `i` lists. -/
def blocksOf (st : Store) (i : Nat) : List Nat :=
  match st.inodes i with
  | some inode => inode.blocks
  | none => []

/-- The first block of inode `i`. -/
def firstSlot (st : Store) (i : Nat) : Option Slot :=
  match st.inodes i with
  | some inode => (inode.blockIds[0]?).bind st.slots
  | none => none

/-- The records stored in the first block of directory `d`. -/
def records (st : Store) (d : Nat) : List BlockRecord :=
  match st.firstSlot d with
  | some s => s.records
  | none => []

/-- The records of `d` after `.` and `..`. -/
def namedRecords (st : Store) (d : Nat) : List BlockRecord := (st.records d).drop 2

/-- The inode the `..` record of `d` names. -/
def parentOf (st : Store) (d : Nat) : Nat :=
  match (st.records d)[1]? with
  | some r => r.inodeId
  | none => 0

/-- The directory tree an image records. -/
def tree (st : Store) : DirTree Nat (List UInt8) where
  live := st.InodeReserved
  dir := st.IsDir
  parent := st.parentOf
  named d := (st.namedRecords d).map fun r => (r.path, r.inodeId)

/-- The data of inode `i`, block by block. -/
def chunks (st : Store) (i : Nat) : List (List UInt8) :=
  (st.blocksOf i).map fun b =>
    match st.slots b with
    | some s => s.visible
    | none => []

/-- File `i` has no gaps: byte `n` of its content is byte `n % 121` of block `n / 121`. -/
structure NoGaps (st : Store) (i : Nat) : Prop where
  gapFree : GapFree 121 (st.chunks i)

instance (st : Store) (i : Nat) : Decidable (st.NoGaps i) :=
  decidable_of_iff (GapFree 121 (st.chunks i)) ⟨NoGaps.mk, NoGaps.gapFree⟩

/-- The path walk from an inode, for a path shorter than `fuel`: what
    `get_inode_id_of_dir_rec` computes. -/
def walk (st : Store) : (fuel : Nat) → (path : List UInt8) → (current : Nat) →
    Outcome Stop (Option Nat)
  | 0, _, _ => .halted .outside
  | fuel + 1, path, current =>
    match st.inodes current with
    | none => .halted .outside
    | some inode =>
      if inode.isFile then .done none
      else
        match parsePath defaultFsInfo path with
        | .halted e => .halted e
        | .done (name, rest) =>
          if name = [slash] then .done (some current)
          else
            match st.firstSlot current with
            | none => .halted .outside
            | some s =>
              -- the walk does not check whether the block could be read
              if s.Mixed then .halted .memoryError
              else
                match s.find name, rest with
                | none, _ => .done none
                | some next, none => .done (some next)
                | some next, some rest => st.walk fuel rest next

/-- The directory a path leads to from the root. -/
def resolve (st : Store) (path : List UInt8) : Outcome Stop (Option Nat) :=
  st.walk (path.length + 1) path rootInodeId

/-- Where a path is created or opened: its parent directory, the first block of that, and
    the last name of the path. -/
def site (st : Store) (path : List UInt8) : Outcome Stop (Option (Nat × Slot × List UInt8)) :=
  match splitPath path with
  | .halted e => .halted e
  | .done none => .done none
  | .done (some (parentPath, name)) =>
    match st.resolve parentPath with
    | .halted e => .halted e
    | .done none => .done none
    | .done (some p) =>
      match st.inodes p, st.firstSlot p with
      | some inode, some s => if inode.isFile then .done none else .done (some (p, s, name))
      | _, _ => .halted .outside

/-- A creation has a site where its path splits and the parent is a directory. -/
theorem site_eq_iff {st : Store} {path name : List UInt8} {p : Nat} {s : Slot} :
    st.site path = .done (some (p, s, name)) ↔
      ∃ parentPath inode, splitPath path = .done (some (parentPath, name)) ∧
        st.resolve parentPath = .done (some p) ∧ st.inodes p = some inode ∧
        inode.isFile = false ∧ st.firstSlot p = some s := by
  unfold site
  constructor
  · intro h
    split at h
    · cases h
    · cases h
    rename_i parentPath name' hsplit
    split at h
    · cases h
    · cases h
    rename_i p' hres
    split at h
    · rename_i inode s' hget hs
      split at h
      · cases h
      · rename_i hkind
        cases h
        exact ⟨parentPath, inode, hsplit, hres, hget, by simpa using hkind, hs⟩
    · cases h
  · rintro ⟨parentPath, inode, hsplit, hres, hget, hkind, hs⟩
    simp [hsplit, hres, hget, hkind, hs]

/-- The inode that the record of the last name of a path leads to. -/
def target (st : Store) (path : List UInt8) : Option Nat :=
  match st.site path with
  | .done (some (_, s, name)) => if s.Mixed then none else s.find name
  | _ => none

end Store

/-! ### Images -/

/-- An image with a superblock and a descriptor table. -/
structure Image where
  sb : Superblock
  dt : DescriptorsTable
  inodes : Nat → Option Inode
  slots : Nat → Option Slot

namespace Image

/-- The image as a store. -/
def store (I : Image) : Store := ⟨some I.sb, some I.dt, I.inodes, I.slots⟩

/-- The image on disk while another superblock is in memory: `I.sb` is the one in
    memory, `sb` the one last stored. -/
def onDisk (I : Image) (sb : Superblock) : Store := ⟨some sb, some I.dt, I.inodes, I.slots⟩

/-- The image on disk has the superblock that is in memory. -/
@[simp] theorem store_superblock (I : Image) : I.store.superblock = some I.sb := rfl

/-- The image on disk has the table. -/
@[simp] theorem store_descriptorsTable (I : Image) :
    I.store.descriptorsTable = some I.dt := rfl

/-- The image on disk has the inodes. -/
@[simp] theorem store_inodes (I : Image) : I.store.inodes = I.inodes := rfl

/-- The image on disk has the slots. -/
@[simp] theorem store_slots (I : Image) : I.store.slots = I.slots := rfl

/-- With its own superblock the image on disk is the image. -/
@[simp] theorem onDisk_sb (I : Image) : I.onDisk I.sb = I.store := rfl

/-- On disk is the superblock that was stored last. -/
@[simp] theorem onDisk_superblock (I : Image) (sb : Superblock) :
    (I.onDisk sb).superblock = some sb := rfl

/-- The inodes on disk do not depend on the superblock. -/
@[simp] theorem onDisk_inodes (I : Image) (sb : Superblock) : (I.onDisk sb).inodes = I.inodes := rfl

/-- The slots on disk do not depend on the superblock. -/
@[simp] theorem onDisk_slots (I : Image) (sb : Superblock) : (I.onDisk sb).slots = I.slots := rfl

/-- Store one block. -/
def setSlot (I : Image) (b : Nat) (s : Slot) : Image :=
  { I with slots := fun x => if x = b then some s else I.slots x }

/-- Store one inode record. -/
def setInode (I : Image) (inode : Inode) : Image :=
  { I with inodes := fun x => if x = inode.id then some inode else I.inodes x }

/-- Store the descriptor table. -/
def setTable (I : Image) (dt : DescriptorsTable) : Image := { I with dt := dt }

/-- Mark an inode as reserved. -/
def takeInode (I : Image) (i : Nat) : Image :=
  { I with sb := { I.sb with reservedInodesMask := I.sb.reservedInodesMask.set i true } }

/-- Mark a block as reserved. -/
def takeBlock (I : Image) (b : Nat) : Image :=
  { I with sb := { I.sb with reservedBlocksMask := I.sb.reservedBlocksMask.set b true } }

/-- Block `k` of inode `i`, with its number. -/
def block (I : Image) (i k : Nat) : Option (Nat × Slot) :=
  match I.inodes i with
  | some inode =>
    match inode.blockIds[k]? with
    | some b => (I.slots b).map fun s => (b, s)
    | none => none
  | none => none

/-- A slot that is set keeps the superblock. -/
@[simp] theorem setSlot_sb (I : Image) (b : Nat) (s : Slot) : (I.setSlot b s).sb = I.sb := rfl

/-- A slot that is set keeps the table. -/
@[simp] theorem setSlot_dt (I : Image) (b : Nat) (s : Slot) : (I.setSlot b s).dt = I.dt := rfl

/-- A slot that is set keeps the inodes. -/
@[simp] theorem setSlot_inodes (I : Image) (b : Nat) (s : Slot) :
    (I.setSlot b s).inodes = I.inodes := rfl

/-- A slot that is set holds what it was set to. -/
@[simp] theorem setSlot_slots_self (I : Image) (b : Nat) (s : Slot) :
    (I.setSlot b s).slots b = some s := if_pos rfl

/-- The other slots stay. -/
theorem setSlot_slots_ne (I : Image) {b x : Nat} (s : Slot) (h : x ≠ b) :
    (I.setSlot b s).slots x = I.slots x := if_neg h

/-- An inode that is set keeps the superblock. -/
@[simp] theorem setInode_sb (I : Image) (inode : Inode) : (I.setInode inode).sb = I.sb := rfl

/-- An inode that is set keeps the table. -/
@[simp] theorem setInode_dt (I : Image) (inode : Inode) : (I.setInode inode).dt = I.dt := rfl

/-- An inode that is set keeps the slots. -/
@[simp] theorem setInode_slots (I : Image) (inode : Inode) :
    (I.setInode inode).slots = I.slots := rfl

/-- An inode that is set is found under its number. -/
@[simp] theorem setInode_inodes_self (I : Image) (inode : Inode) :
    (I.setInode inode).inodes inode.id = some inode := if_pos rfl

/-- The other inodes stay. -/
theorem setInode_inodes_ne (I : Image) {x : Nat} (inode : Inode) (h : x ≠ inode.id) :
    (I.setInode inode).inodes x = I.inodes x := if_neg h

/-- A new table keeps the superblock. -/
@[simp] theorem setTable_sb (I : Image) (dt : DescriptorsTable) : (I.setTable dt).sb = I.sb := rfl

/-- A new table is the table. -/
@[simp] theorem setTable_dt (I : Image) (dt : DescriptorsTable) : (I.setTable dt).dt = dt := rfl

/-- A new table keeps the inodes. -/
@[simp] theorem setTable_inodes (I : Image) (dt : DescriptorsTable) :
    (I.setTable dt).inodes = I.inodes := rfl

/-- A new table keeps the slots. -/
@[simp] theorem setTable_slots (I : Image) (dt : DescriptorsTable) :
    (I.setTable dt).slots = I.slots := rfl

/-- Taking an inode keeps the table. -/
@[simp] theorem takeInode_dt (I : Image) (i : Nat) : (I.takeInode i).dt = I.dt := rfl

/-- Taking an inode keeps the inodes. -/
@[simp] theorem takeInode_inodes (I : Image) (i : Nat) : (I.takeInode i).inodes = I.inodes := rfl

/-- Taking an inode keeps the slots. -/
@[simp] theorem takeInode_slots (I : Image) (i : Nat) : (I.takeInode i).slots = I.slots := rfl

/-- Taking a block keeps the table. -/
@[simp] theorem takeBlock_dt (I : Image) (b : Nat) : (I.takeBlock b).dt = I.dt := rfl

/-- Taking a block keeps the inodes. -/
@[simp] theorem takeBlock_inodes (I : Image) (b : Nat) : (I.takeBlock b).inodes = I.inodes := rfl

/-- Taking a block keeps the slots. -/
@[simp] theorem takeBlock_slots (I : Image) (b : Nat) : (I.takeBlock b).slots = I.slots := rfl

/-- An inode is set on disk as it is in memory. -/
theorem store_setInode (I : Image) (inode : Inode) (sb : Superblock) :
    (I.onDisk sb).setInode inode = (I.setInode inode).onDisk sb := rfl

end Image

end MiniExt
