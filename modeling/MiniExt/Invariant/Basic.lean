import MiniExt.Effects
import MiniExt.Invariant.Table

namespace MiniExt

open Lib

/-!
# The invariant of an image

`Image.Ok` is what every run of commands keeps.  It has three parts, which change for
different reasons:

* `Image.Layout` — masks, inode records, block lists and block headers fit together;
* `Image.Directories` — the records form a tree, and every name is a name;
* `Image.TableOk` — reserved descriptors refer to different named inodes.

Each part has one lemma per kind of change that a host write makes.
-/

/-! ### Blocks and names -/

namespace Slot

/-- A block of file data: no records, and a full data body unless it is empty. -/
def IsData (s : Slot) : Prop :=
  s.info.recordsCount = 0 ∧ s.info.dataSize ≤ 121 ∧
    (s.info.dataSize ≠ 0 → ∃ bytes, s.body = .data bytes ∧ bytes.length = 121)

/-- The first block of directory `d`: the records `.` and `..`, then at most four more.
    The data size is free: a directory that was opened and written to has one. -/
def IsRecords (s : Slot) (d : Nat) : Prop :=
  ∃ parent named, s.body = .records (⟨d, nameField defaultFsInfo dotName⟩ ::
      ⟨parent, nameField defaultFsInfo twoDotsName⟩ :: named) ∧
    s.info.recordsCount = named.length + 2 ∧ named.length ≤ 4

/-- What the slot `b` holds as block `k` of inode `i`. -/
structure Holds (s : Slot) (i k b : Nat) (isFile : Bool) : Prop where
  blockId_eq : s.info.blockId = b
  inodeId_eq : s.info.inodeId = i
  body : if k = 0 ∧ isFile = false then s.IsRecords i else s.IsData

/-- The blocks of a regular file are data blocks. -/
theorem Holds.isData {s : Slot} {i k b : Nat} (h : s.Holds i k b true) : s.IsData := by
  have hbody := h.body
  rwa [if_neg (by simp)] at hbody

/-- A block of data has no records. -/
theorem IsData.records_eq {s : Slot} (h : s.IsData) : s.records = [] := by
  unfold records
  split
  · rw [h.1, List.take_zero]
  · rfl

/-- A block has the records that its header counts. -/
theorem records_of_le {info : BlockInfo} {rs : List BlockRecord}
    (h : rs.length ≤ info.recordsCount) : (⟨info, .records rs⟩ : Slot).records = rs :=
  List.take_of_length_le h

/-- The records of a directory start with `.` and `..`, and at most four others follow. -/
theorem IsRecords.records_eq {s : Slot} {d : Nat} (h : s.IsRecords d) :
    ∃ parent named, s.records = ⟨d, nameField defaultFsInfo dotName⟩ ::
        ⟨parent, nameField defaultFsInfo twoDotsName⟩ :: named ∧
      s.info.recordsCount = named.length + 2 ∧ named.length ≤ 4 := by
  obtain ⟨parent, named, hbody, hcount, hle⟩ := h
  refine ⟨parent, named, ?_, hcount, hle⟩
  simp only [records, hbody]
  rw [List.take_of_length_le]
  simp only [List.length_cons]
  omega

/-- A block of records counts them. -/
theorem IsRecords.not_isData {s : Slot} {d : Nat} (h : s.IsRecords d) :
    s.info.recordsCount ≠ 0 := by
  obtain ⟨_, _, _, hcount, _⟩ := h
  omega

/-- A block of data does not count both. -/
theorem IsData.not_mixed {s : Slot} (h : s.IsData) : ¬ s.Mixed := fun hm => hm.1 h.1

/-- As many bytes are visible as the header counts. -/
theorem length_visible_le {s : Slot} (h : s.IsData) : s.visible.length = s.info.dataSize := by
  unfold visible
  by_cases hz : s.info.dataSize = 0
  · split
    · simp [hz]
    · simp [hz]
  · obtain ⟨bytes, hbody, hlen⟩ := h.2.2 hz
    rw [hbody]
    simp only [List.length_take, hlen]
    have := h.2.1
    omega

end Slot

/-- A record that a creation appended: its name fits its field, and is not `.` or `..`. -/
def BlockRecord.WellNamed (r : BlockRecord) : Prop :=
  ∃ name, r.path = nameField defaultFsInfo name ∧ name.length < 16 ∧ 0 ∉ name ∧
    name ≠ dotName ∧ name ≠ twoDotsName

namespace Image

/-! ### The three parts -/

/-- The record of a reserved inode and the blocks it lists. -/
structure InodeOk (I : Image) (i : Nat) (inode : Inode) : Prop where
  id_eq : inode.id = i
  count_pos : 0 < inode.blocksCount
  count_le : inode.blocksCount ≤ 8
  length_eq : inode.blockIds.length = 8
  unused : ∀ {k : Nat}, inode.blocksCount ≤ k → k < 8 → inode.blockIds[k]? = some 0
  nodup : inode.blocks.Nodup
  block : ∀ {k b : Nat}, k < inode.blocksCount → inode.blockIds[k]? = some b →
    Taken I.sb.reservedBlocksMask b ∧
      ∃ s, I.slots b = some s ∧ s.Holds i k b inode.isFile

/-- Masks, inode records, block lists and headers fit together.  The root directory keeps
    block 0, and nothing writes data there: unused entries of block lists lead to it. -/
structure Layout (I : Image) : Prop where
  geometry : I.sb.fsInfo = defaultFsInfo
  inodesLength : I.sb.reservedInodesMask.length = 128
  blocksLength : I.sb.reservedBlocksMask.length = 128
  packed : Packed I.sb.reservedInodesMask
  inode : ∀ {i}, Taken I.sb.reservedInodesMask i →
    ∃ inode, I.inodes i = some inode ∧ I.InodeOk i inode
  rootBlock : ∃ s, I.block 0 0 = some (0, s) ∧ s.info.dataSize = 0

/-- The directory records form a tree of well-formed names. -/
structure Directories (I : Image) : Prop where
  tree : I.store.tree.Grounded rootInodeId
  names : ∀ {d}, I.store.IsDir d → ∀ r ∈ I.store.namedRecords d, r.WellNamed

/-- Every reserved descriptor refers to a named inode, and no two of them to the same one.
    Its position may lie past the maximal size of a file, by one block for every block that
    was appended past a gap. -/
structure TableOk (I : Image) : Prop where
  fdLength : I.dt.reservedFd.length = 16
  inodeLength : I.dt.fdToInode.length = 16
  positionLength : I.dt.fdToPosition.length = 16
  unused : ∀ {fd : Nat}, I.dt.reservedFd[fd]? = some false → I.dt.fdToInode[fd]? = some 0
  used : ∀ {fd i p}, I.dt.Entry fd i p → I.store.tree.Named i
  position_le : ∀ {fd i p inode}, I.dt.Entry fd i p → I.inodes i = some inode →
    p ≤ 968 + 121 * inode.blocksCount
  distinct : ∀ {fd fd' i p p'}, I.dt.Entry fd i p → I.dt.Entry fd' i p' → fd = fd'

/-- The invariant. -/
structure Ok (I : Image) : Prop where
  layout : I.Layout
  directories : I.Directories
  table : I.TableOk

/-! ### Reading an image that is laid out -/

section Read

variable {I : Image}

/-- An inode is reserved on disk as it is in memory. -/
theorem inodeReserved_iff {i : Nat} :
    I.store.InodeReserved i ↔ Taken I.sb.reservedInodesMask i := Iff.rfl

/-- Block `k` of an inode of the image. -/
theorem block_eq {i k b : Nat} {inode : Inode} {s : Slot} (hi : I.inodes i = some inode)
    (hb : inode.blockIds[k]? = some b) (hs : I.slots b = some s) :
    I.block i k = some (b, s) := by
  simp only [block, hi, hb, hs, Option.map_some]

/-- The parts of a block of the image. -/
theorem block_cases {i k b : Nat} {s : Slot} (h : I.block i k = some (b, s)) :
    ∃ inode, I.inodes i = some inode ∧ inode.blockIds[k]? = some b ∧ I.slots b = some s := by
  unfold block at h
  split at h
  · rename_i inode hi
    split at h
    · rename_i b' hb'
      obtain ⟨s', hs', heq⟩ := Option.map_eq_some_iff.mp h
      cases heq
      exact ⟨inode, hi, hb', hs'⟩
    · cases h
  · cases h

/-- A block of an inode whose record is known. -/
theorem block_entry {i k b : Nat} {s : Slot} {inode : Inode} (h : I.block i k = some (b, s))
    (hget : I.inodes i = some inode) : inode.blockIds[k]? = some b ∧ I.slots b = some s := by
  obtain ⟨inode', hget', hb, hs⟩ := block_cases h
  rw [hget] at hget'
  cases hget'
  exact ⟨hb, hs⟩

/-- The first block of an inode is its first slot. -/
theorem firstSlot_eq {i b : Nat} {s : Slot} (h : I.block i 0 = some (b, s)) :
    I.store.firstSlot i = some s := by
  obtain ⟨inode, hi, hb, hs⟩ := block_cases h
  simp only [Store.firstSlot, store_inodes, hi, hb, store_slots, Option.bind_some, hs]

/-- The records of an inode are those of its first block. -/
theorem records_of_block {i b : Nat} {s : Slot} (h : I.block i 0 = some (b, s)) :
    I.store.records i = s.records := by
  rw [Store.records, firstSlot_eq h]

/-- Entries below the count are entries of the list. -/
theorem InodeOk.getElem {i k : Nat} {inode : Inode} (h : I.InodeOk i inode)
    (hk : k < inode.blocksCount) :
    ∃ b s, inode.blockIds[k]? = some b ∧ Taken I.sb.reservedBlocksMask b ∧
      I.slots b = some s ∧ s.Holds i k b inode.isFile := by
  have hlt : k < inode.blockIds.length := by
    rw [h.length_eq]
    exact lt_of_lt_of_le hk h.count_le
  obtain ⟨ht, s, hs, hh⟩ := h.block hk (List.getElem?_eq_getElem hlt)
  exact ⟨_, s, List.getElem?_eq_getElem hlt, ht, hs, hh⟩

/-- The first block of a regular file holds no records. -/
theorem InodeOk.firstSlot_clean {i : Nat} {inode : Inode} {s : Slot} (h : I.InodeOk i inode)
    (hi : I.inodes i = some inode) (hfile : inode.isFile = true)
    (hs : I.store.firstSlot i = some s) : ¬ s.Mixed := by
  obtain ⟨b, s', hb, _, hs', hh⟩ := h.getElem h.count_pos
  rw [firstSlot_eq (block_eq hi hb hs')] at hs
  cases hs
  exact (hfile ▸ hh).isData.not_mixed

/-- The blocks of an inode are the entries its count covers. -/
theorem mem_blocks {inode : Inode} {b : Nat} :
    b ∈ inode.blocks ↔ ∃ k, k < inode.blocksCount ∧ inode.blockIds[k]? = some b := by
  simp only [Inode.blocks, List.mem_iff_getElem?, List.getElem?_take]
  constructor
  · rintro ⟨k, hk⟩
    split at hk
    · exact ⟨k, by assumption, hk⟩
    · cases hk
  · rintro ⟨k, hk, hb⟩
    exact ⟨k, by rw [if_pos hk]; exact hb⟩

/-- Two places of a block list hold different blocks. -/
theorem InodeOk.index_unique {i k k' b : Nat} {inode : Inode} (h : I.InodeOk i inode)
    (hk : k < inode.blocksCount) (hk' : k' < inode.blocksCount)
    (hb : inode.blockIds[k]? = some b) (hb' : inode.blockIds[k']? = some b) : k = k' := by
  have hlen : inode.blocks.length = inode.blocksCount := by
    rw [Inode.blocks, List.length_take, h.length_eq]
    have := h.count_le
    omega
  have hget : ∀ {j}, j < inode.blocksCount → inode.blocks[j]? = inode.blockIds[j]? := by
    intro j hj
    rw [Inode.blocks, List.getElem?_take, if_pos hj]
  refine (List.getElem?_inj (by omega) h.nodup).mp ?_
  rw [hget hk, hget hk', hb, hb']

/-- A block listed by an inode that fits carries the inode's number, so no other inode
    lists it. -/
theorem InodeOk.owner {i j k b : Nat} {inode : Inode} {s : Slot} (h : I.InodeOk i inode)
    (hk : k < inode.blocksCount) (hb : inode.blockIds[k]? = some b) (hs : I.slots b = some s)
    (hj : s.info.inodeId = j) : i = j := by
  obtain ⟨_, s', hs', hh⟩ := h.block hk hb
  rw [hs] at hs'
  cases hs'
  rw [← hj, hh.inodeId_eq]

/-- The record of a reserved inode fits, whichever way it was found. -/
theorem Layout.inodeOk (h : I.Layout) {i : Nat} {inode : Inode}
    (hi : Taken I.sb.reservedInodesMask i) (hget : I.inodes i = some inode) :
    I.InodeOk i inode := by
  obtain ⟨inode', hget', hok⟩ := h.inode hi
  rw [hget] at hget'
  cases hget'
  exact hok

/-- `inodes_count`, which stands for no inode, is no reserved one. -/
theorem Layout.inode_ne (h : I.Layout) {i : Nat} (hi : Taken I.sb.reservedInodesMask i) :
    i ≠ 128 := by
  have hlt := hi.lt_length
  rw [h.inodesLength] at hlt
  exact hlt.ne

/-- The first block of a directory. -/
theorem Layout.dirBlock (h : I.Layout) {d : Nat} (hd : I.store.IsDir d) :
    ∃ inode b s, I.inodes d = some inode ∧ inode.isFile = false ∧ I.InodeOk d inode ∧
      inode.blockIds[0]? = some b ∧ I.slots b = some s ∧ I.block d 0 = some (b, s) ∧
      s.Holds d 0 b false ∧ s.IsRecords d := by
  obtain ⟨hres, inode, hi, hkind⟩ := hd
  rw [store_inodes] at hi
  have hok := h.inodeOk hres hi
  obtain ⟨b, s, hb, _, hs, hh⟩ := hok.getElem hok.count_pos
  rw [hkind] at hh
  have hbody := hh.body
  rw [if_pos ⟨rfl, rfl⟩] at hbody
  exact ⟨inode, b, s, hi, hkind, hok, hb, hs, block_eq hi hb hs, hh, hbody⟩

/-- What the first block of a directory holds. -/
theorem Layout.recordsBlock (h : I.Layout) {d b : Nat} {s : Slot} (hd : I.store.IsDir d)
    (hblock : I.block d 0 = some (b, s)) : s.Holds d 0 b false ∧ s.IsRecords d := by
  obtain ⟨_, b', s', _, _, _, _, _, hblock', hh, hrec⟩ := h.dirBlock hd
  rw [hblock] at hblock'
  cases hblock'
  exact ⟨hh, hrec⟩

/-- The records of a directory: `.`, `..` and at most four names. -/
theorem Layout.records_eq (h : I.Layout) {d : Nat} (hd : I.store.IsDir d) :
    I.store.records d = ⟨d, nameField defaultFsInfo dotName⟩ ::
      ⟨I.store.parentOf d, nameField defaultFsInfo twoDotsName⟩ :: I.store.namedRecords d ∧
      (I.store.namedRecords d).length ≤ 4 := by
  obtain ⟨inode, b, s, _, _, _, _, _, hblock, _, hrec⟩ := h.dirBlock hd
  obtain ⟨parent, named, heq, _, hle⟩ := hrec.records_eq
  have hrecs : I.store.records d = _ := (records_of_block hblock).trans heq
  have hnamed : I.store.namedRecords d = named := by simp [Store.namedRecords, hrecs]
  have hparent : I.store.parentOf d = parent := by simp [Store.parentOf, hrecs]
  rw [hrecs, hnamed, hparent]
  exact ⟨rfl, hle⟩

/-- A record of a directory leads to a reserved inode. -/
theorem Ok.record_taken (h : I.Ok) {d : Nat} (hd : I.store.IsDir d) {rec : BlockRecord}
    (hrec : rec ∈ I.store.records d) : Taken I.sb.reservedInodesMask rec.inodeId := by
  rw [(h.layout.records_eq hd).1, List.mem_cons, List.mem_cons] at hrec
  rcases hrec with rfl | rfl | hrec
  · exact hd.1
  · exact (h.directories.tree.parent_dir hd).1
  · exact h.directories.tree.child_live hd (List.mem_map.mpr ⟨rec, hrec, rfl⟩)

end Read

end Image

end MiniExt
