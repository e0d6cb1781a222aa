import MiniExt.Disk.Codec

namespace MiniExt

open Lib

/-!
# Runs of the codecs

What a codec stores, and what it returns when the file holds that.

* `FsInfo.InRange`, `Superblock.FitsIn`, … — values within the widths of their fields;
* `encodeSuperblock`, `encodeBlock`, … — what the codecs store;
* `Puts`, `Gets` — a program that stores data, or returns a value where data is;
* `puts_writeSuperBlock`, `gets_readSuperBlock`, … — the codecs.
-/

/-! ### Values that fit -/

/-- A geometry whose numbers fit their fields, whose regions fit the types of their sizes, and
    whose blocks start below `2 ^ 31`. -/
structure FsInfo.InRange (info : FsInfo) : Prop where
  fields : ∀ n ∈ [info.inodesCount, info.blocksCount, info.blockSize, info.blocksCountInInode,
    info.maxPathLen, info.descriptorsCount, info.magic], n < 2 ^ 16
  table : info.descriptorsCount * (1 + 2 + 4) < 2 ^ 16
  inodes : info.inodesCount * sizeofInode info < 2 ^ 16
  blocks : ∀ b < info.blocksCount, blocksStart info + b * info.blockSize < 2 ^ 31

/-- A superblock of a geometry. -/
structure Superblock.FitsIn (info : FsInfo) (sb : Superblock) : Prop where
  geometry : sb.fsInfo = info
  inodes : sb.reservedInodesMask.length = info.inodesCount
  blocks : sb.reservedBlocksMask.length = info.blocksCount

/-- A descriptor table of a geometry. -/
structure DescriptorsTable.FitsIn (info : FsInfo) (dt : DescriptorsTable) : Prop where
  reserved : dt.reservedFd.length = info.descriptorsCount
  inodes : dt.fdToInode.length = info.descriptorsCount
  positions : dt.fdToPosition.length = info.descriptorsCount
  inodeId_lt : ∀ i ∈ dt.fdToInode, i < 2 ^ 16
  position_lt : ∀ p ∈ dt.fdToPosition, p < 2 ^ 32

/-- An inode of a geometry. -/
structure Inode.FitsIn (info : FsInfo) (inode : Inode) : Prop where
  id_lt : inode.id < info.inodesCount
  count_lt : inode.blocksCount < 2 ^ 16
  length : inode.blockIds.length = info.blocksCountInInode
  blockId_lt : ∀ b ∈ inode.blockIds, b < 2 ^ 16

/-- A directory record of a geometry. -/
structure BlockRecord.FitsIn (info : FsInfo) (r : BlockRecord) : Prop where
  inodeId_lt : r.inodeId < 2 ^ 16
  length : r.path.length = info.maxPathLen

/-- A block of a geometry: not both records and data, and what it has fits the block. -/
structure Block.FitsIn (info : FsInfo) (block : Block) : Prop where
  blockId_lt : block.info.blockId < info.blocksCount
  inodeId_lt : block.info.inodeId < 2 ^ 16
  recordsCount_lt : block.info.recordsCount < 2 ^ 8
  dataSize_lt : block.info.dataSize < 2 ^ 16
  notMixed : ¬ (block.info.recordsCount ≠ 0 ∧ block.info.dataSize ≠ 0)
  recordsFit : sizeofBlockInfo + block.info.recordsCount * sizeofBlockRecord info ≤ info.blockSize
  dataFits : sizeofBlockInfo + block.info.dataSize ≤ info.blockSize
  null : block.records = none ↔ block.info.recordsCount = 0
  records : ∀ rs, block.records = some rs → rs.length = block.info.recordsCount ∧
    ∀ r ∈ rs, r.FitsIn info
  buffer : maxSizeOfData info ≤ block.data.length

/-! ### What the codecs store -/

/-- A superblock as `write_super_block` writes it. -/
def encodeSuperblock (sb : Superblock) : List UInt8 :=
  encodeFsInfo sb.fsInfo ++ (encodeBools sb.reservedInodesMask ++ encodeBools sb.reservedBlocksMask)

/-- A table as `write_descriptor_table` writes it. -/
def encodeTable (dt : DescriptorsTable) : List UInt8 :=
  encodeBools dt.reservedFd ++ (encodeArray 2 dt.fdToInode ++ encodeArray 4 dt.fdToPosition)

/-- An inode as `write_inode` writes it. -/
def encodeInode (inode : Inode) : List UInt8 :=
  encodeInodeInfo inode ++ encodeArray 2 inode.blockIds

/-- A record as `write_block_record` writes it. -/
def encodeRecord (r : BlockRecord) : List UInt8 := encodeLE 2 r.inodeId ++ r.path

/-- The body of a block: its records, or the whole data buffer. -/
def encodeBody (info : FsInfo) (block : Block) : List UInt8 :=
  match block.records with
  | some rs => rs.flatMap encodeRecord
  | none => if block.info.dataSize = 0 then [] else block.data.take (maxSizeOfData info)

/-- A block as `write_block` writes it. -/
def encodeBlock (info : FsInfo) (block : Block) : List UInt8 :=
  encodeBlockInfo block.info ++ encodeBody info block

/-! ### Packed structures read back -/

/-- **The header of the superblock** is read back from its bytes. -/
theorem decodeFsInfo_encodeFsInfo {info : FsInfo} (h : info.InRange) :
    decodeFsInfo (encodeFsInfo info) = info := by
  have hfield : ∀ n ∈ [info.inodesCount, info.blocksCount, info.blockSize,
      info.blocksCountInInode, info.maxPathLen, info.descriptorsCount, info.magic],
      decodeLE (encodeLE 2 n) = n := fun n hn => decodeLE_encodeLE (h.fields n hn)
  simp only [List.forall_mem_cons] at hfield
  obtain ⟨h₀, h₁, h₂, h₃, h₄, h₅, h₆, _⟩ := hfield
  calc decodeFsInfo (encodeFsInfo info)
      = ⟨decodeLE (encodeLE 2 info.inodesCount), decodeLE (encodeLE 2 info.blocksCount),
          decodeLE (encodeLE 2 info.blockSize), decodeLE (encodeLE 2 info.blocksCountInInode),
          decodeLE (encodeLE 2 info.maxPathLen), decodeLE (encodeLE 2 info.descriptorsCount),
          decodeLE (encodeLE 2 info.magic)⟩ := rfl
    _ = info := by rw [h₀, h₁, h₂, h₃, h₄, h₅, h₆]

/-- **An inode** is read back from its bytes and the number it is read for. -/
theorem decodeInode_encode {info : FsInfo} {inode : Inode} (h : inode.FitsIn info)
    (hid : inode.id < 2 ^ 16) :
    decodeInode info (encodeInodeInfo inode) (encodeArray 2 inode.blockIds) = inode := by
  have hcount := h.count_lt
  have hids : decodeArray 2 info.blocksCountInInode (encodeArray 2 inode.blockIds) =
      inode.blockIds := by
    rw [← h.length]
    exact decodeArray_encodeArray h.blockId_lt
  have hkind : decide (decodeBools (encodeBools [inode.isFile]) = [true]) = inode.isFile := by
    rw [decodeBools_encodeBools]
    cases inode.isFile <;> rfl
  calc decodeInode info (encodeInodeInfo inode) (encodeArray 2 inode.blockIds)
      = ⟨decodeLE (encodeLE 2 inode.id), decodeLE (encodeLE 2 inode.blocksCount),
          decide (decodeBools (encodeBools [inode.isFile]) = [true]),
          decodeArray 2 info.blocksCountInInode (encodeArray 2 inode.blockIds)⟩ := rfl
    _ = inode := by rw [decodeLE_encodeLE hid, decodeLE_encodeLE hcount, hkind, hids]

/-- **The header of a block** is read back from its bytes. -/
theorem decodeBlockInfo_encodeBlockInfo {info : BlockInfo} (hblock : info.blockId < 2 ^ 16)
    (hinode : info.inodeId < 2 ^ 16) (hrecords : info.recordsCount < 2 ^ 8)
    (hdata : info.dataSize < 2 ^ 16) : decodeBlockInfo (encodeBlockInfo info) = info :=
  calc decodeBlockInfo (encodeBlockInfo info)
      = ⟨decodeLE (encodeLE 2 info.blockId), decodeLE (encodeLE 2 info.inodeId),
          decodeLE (encodeLE 1 info.recordsCount), decodeLE (encodeLE 2 info.dataSize)⟩ := rfl
    _ = info := by
      rw [decodeLE_encodeLE hblock, decodeLE_encodeLE hinode, decodeLE_encodeLE hrecords,
        decodeLE_encodeLE hdata]

/-- The header of the superblock has its length. -/
@[simp] theorem length_encodeFsInfo (info : FsInfo) :
    (encodeFsInfo info).length = sizeofFsInfo := rfl

/-- The header of an inode has its length. -/
@[simp] theorem length_encodeInodeInfo (inode : Inode) :
    (encodeInodeInfo inode).length = sizeofInodeInfo := rfl

/-- The header of a block has its length. -/
@[simp] theorem length_encodeBlockInfo (info : BlockInfo) :
    (encodeBlockInfo info).length = sizeofBlockInfo := rfl

/-! ### Programs that store -/

/-- The program stores the data where the file stands, and returns the value. -/
def Puts {α : Type} (p : DeviceProg α) (data : List UInt8) (a : α) : Prop :=
  ∀ f, p.run? fileHandler f = some (.done a, ⟨writeAt 0 f.bytes f.pos data, f.pos + data.length⟩)

/-- A call of the device is what the file makes of it. -/
theorem run_device (c : DeviceCall) (f : ImageFile) :
    (Device.ask c).run? fileHandler f = fileHandler c f :=
  Prog.run?_perform fileHandler c f

/-- A seek to an offset goes there. -/
theorem run_lseek (offset : Nat) (f : ImageFile) :
    (Device.lseek offset).run? fileHandler f = some (.done (), ⟨f.bytes, offset⟩) := by
  refine (run_device (.lseek offset) f).trans ?_
  show some (Outcome.done (), if (offset : Int) < 0 then f else ⟨f.bytes, offset⟩) = _
  rw [if_neg (Int.not_lt.mpr (Int.natCast_nonneg offset))]

/-- One `write_while`. -/
theorem puts_writeWhile {buffer : List UInt8} {count : Nat} (h : count ≤ buffer.length) :
    Puts (Device.writeWhile buffer count) (buffer.take count) true := by
  intro f
  unfold Device.writeWhile
  rw [if_neg (Nat.not_lt.mpr h)]
  exact run_device (.writeWhile (buffer.take count)) f

/-- One `write_while` of a whole buffer. -/
theorem puts_buffer {buffer : List UInt8} {count : Nat} (h : buffer.length = count) :
    Puts (Device.writeWhile buffer count) buffer true := by
  have hputs := puts_writeWhile h.ge
  rwa [List.take_of_length_le h.le] at hputs

/-- Nothing is put. -/
theorem puts_pure {α : Type} (a : α) : Puts (pure a) [] a := fun _ => rfl

/-- One part after the other. -/
theorem Puts.bind {α β : Type} {p : DeviceProg α} {k : α → DeviceProg β} {x : α} {y : β}
    {a b : List UInt8} (hp : Puts p a x) (hk : Puts (k x) b y) : Puts (p >>= k) (a ++ b) y := by
  intro f
  rw [Prog.run?_bind, hp f, follow?_done, hk, writeAt_append, List.length_append, Nat.add_assoc]

/-- A last part that stores nothing. -/
theorem Puts.map {α β : Type} {p : DeviceProg α} {k : α → DeviceProg β} {x : α} {y : β}
    {a : List UInt8} (hp : Puts p a x) (hk : k x = pure y) : Puts (p >>= k) a y := by
  have hbind := hp.bind (k := k) (hk ▸ puts_pure y)
  rwa [List.append_nil] at hbind

/-! ### Programs that read -/

/-- Where the file holds the data, the program returns the value and moves past the data. -/
def Gets {α : Type} (p : DeviceProg α) (data : List UInt8) (a : α) : Prop :=
  ∀ f, HoldsAt f.bytes f.pos data →
    p.run? fileHandler f = some (.done a, ⟨f.bytes, f.pos + data.length⟩)

/-- One `read_while`. -/
theorem gets_readWhile {data : List UInt8} {count : Nat} (h : data.length = count) :
    Gets (Device.readWhile count) data (some data) := by
  intro f hf
  have hle := hf.length_le
  have htake := hf.take_eq
  rw [h] at hle htake ⊢
  refine (run_device (.readWhile count) f).trans ((if_pos hle).trans ?_)
  rw [htake]
  rfl

/-- Nothing is got. -/
theorem gets_pure {α : Type} (a : α) : Gets (pure a) [] a := fun _ _ => rfl

/-- One part after the other. -/
theorem Gets.bind {α β : Type} {p : DeviceProg α} {k : α → DeviceProg β} {x : α} {y : β}
    {a b : List UInt8} (hp : Gets p a x) (hk : Gets (k x) b y) : Gets (p >>= k) (a ++ b) y := by
  intro f hf
  obtain ⟨ha, hb⟩ := holdsAt_append.mp hf
  rw [Prog.run?_bind, hp f ha, follow?_done, hk _ hb, List.length_append, Nat.add_assoc]

/-- A last part that reads nothing. -/
theorem Gets.map {α β : Type} {p : DeviceProg α} {k : α → DeviceProg β} {x : α} {y : β}
    {a : List UInt8} (hp : Gets p a x) (hk : k x = pure y) : Gets (p >>= k) a y := by
  have hbind := hp.bind (k := k) (hk ▸ gets_pure y)
  rwa [List.append_nil] at hbind

/-! ### Codecs -/

/-- The program stores the data at an offset. -/
def PutsAt {α : Type} (p : DeviceProg α) (offset : Nat) (data : List UInt8) (a : α) : Prop :=
  ∀ f, p.run? fileHandler f =
    some (.done a, ⟨writeAt 0 f.bytes offset data, offset + data.length⟩)

/-- Where the file holds the data at an offset, the program returns the value. -/
def GetsAt {α : Type} (p : DeviceProg α) (offset : Nat) (data : List UInt8) (a : α) : Prop :=
  ∀ f, HoldsAt f.bytes offset data →
    p.run? fileHandler f = some (.done a, ⟨f.bytes, offset + data.length⟩)

/-- What is put after a seek is put at its offset. -/
theorem Puts.at {α : Type} {p : DeviceProg α} {data : List UInt8} {a : α} (hp : Puts p data a)
    (offset : Nat) : PutsAt (do Device.lseek offset; p) offset data a := by
  intro f
  rw [Prog.run?_bind, run_lseek, follow?_done]
  exact hp _

/-- What is got after a seek is got from its offset. -/
theorem Gets.at {α : Type} {p : DeviceProg α} {data : List UInt8} {a : α} (hp : Gets p data a)
    (offset : Nat) : GetsAt (do Device.lseek offset; p) offset data a := by
  intro f hf
  rw [Prog.run?_bind, run_lseek, follow?_done]
  exact hp ⟨f.bytes, offset⟩ hf

section Codecs

variable {info : FsInfo}

/-- `write_super_block` puts the bytes of the superblock at the beginning. -/
theorem puts_writeSuperBlock {sb : Superblock} (h : sb.FitsIn info) :
    PutsAt (Device.writeSuperBlock sb) 0 (encodeSuperblock sb) true := by
  have hinodes : (encodeBools sb.reservedInodesMask).length = sb.fsInfo.inodesCount := by
    rw [length_encodeBools, h.inodes, h.geometry]
  have hblocks : (encodeBools sb.reservedBlocksMask).length = sb.fsInfo.blocksCount := by
    rw [length_encodeBools, h.blocks, h.geometry]
  refine Puts.at ?_ 0
  exact (puts_buffer rfl).bind ((puts_buffer hinodes).bind (puts_buffer hblocks))

/-- `read_super_block` gets the superblock from its bytes. -/
theorem gets_readSuperBlock {sb : Superblock} (hinfo : info.InRange) (h : sb.FitsIn info) :
    GetsAt Device.readSuperBlock 0 (encodeSuperblock sb) (some sb) := by
  refine Gets.at ?_ 0
  refine (gets_readWhile rfl).bind ?_
  have hgeometry : decodeFsInfo (encodeFsInfo sb.fsInfo) = sb.fsInfo := by
    rw [h.geometry]
    exact decodeFsInfo_encodeFsInfo hinfo
  simp only [hgeometry]
  have hinodes : (encodeBools sb.reservedInodesMask).length = sb.fsInfo.inodesCount := by
    rw [length_encodeBools, h.inodes, h.geometry]
  have hblocks : (encodeBools sb.reservedBlocksMask).length = sb.fsInfo.blocksCount := by
    rw [length_encodeBools, h.blocks, h.geometry]
  refine (gets_readWhile hinodes).bind ((gets_readWhile hblocks).map ?_)
  simp only [decodeBools_encodeBools]

/-- `write_descriptor_table` puts the bytes of the table behind the superblock. -/
theorem puts_writeDescriptorTable {dt : DescriptorsTable} (h : dt.FitsIn info) :
    PutsAt (Device.writeDescriptorTable info dt) (sizeofSuperblock info) (encodeTable dt) true := by
  refine Puts.at ?_ (sizeofSuperblock info)
  refine (puts_buffer ?_).bind ((puts_buffer ?_).bind (puts_buffer ?_))
  · rw [length_encodeBools, h.reserved]
  · rw [length_encodeArray, h.inodes]
  · rw [length_encodeArray, h.positions]

/-- `read_descriptors_table` gets the table from its bytes. -/
theorem gets_readDescriptorsTable {dt : DescriptorsTable} (h : dt.FitsIn info) :
    GetsAt (Device.readDescriptorsTable info) (sizeofSuperblock info) (encodeTable dt)
      (some dt) := by
  refine Gets.at ?_ (sizeofSuperblock info)
  refine (gets_readWhile ?_).bind ((gets_readWhile ?_).bind ((gets_readWhile ?_).map ?_))
  · rw [length_encodeBools, h.reserved]
  · rw [length_encodeArray, h.inodes]
  · rw [length_encodeArray, h.positions]
  · have hinodes : decodeArray 2 info.descriptorsCount (encodeArray 2 dt.fdToInode) =
        dt.fdToInode := by
      rw [← h.inodes]
      exact decodeArray_encodeArray h.inodeId_lt
    have hpositions : decodeArray 4 info.descriptorsCount (encodeArray 4 dt.fdToPosition) =
        dt.fdToPosition := by
      rw [← h.positions]
      exact decodeArray_encodeArray h.position_lt
    simp only [decodeBools_encodeBools, hinodes, hpositions]

/-- `write_inode` puts the bytes of the inode at its offset. -/
theorem puts_writeInode {inode : Inode} (h : inode.FitsIn info) :
    PutsAt (Device.writeInode info inode) (calculateOffset info inode.id) (encodeInode inode)
      true := by
  refine Puts.at ?_ (calculateOffset info inode.id)
  refine (puts_buffer rfl).bind (puts_buffer ?_)
  rw [length_encodeArray, h.length]

/-- The number of an inode fits its field. -/
theorem FsInfo.InRange.inodeId_lt (hinfo : info.InRange) {i : Nat} (hi : i < info.inodesCount) :
    i < 2 ^ 16 :=
  hi.trans (hinfo.fields _ (by simp))

/-- The number of a block fits its field. -/
theorem FsInfo.InRange.blockId_lt (hinfo : info.InRange) {b : Nat} (hb : b < info.blocksCount) :
    b < 2 ^ 16 :=
  hb.trans (hinfo.fields _ (by simp))

/-- `read_inode` gets the inode from its bytes. -/
theorem gets_readInode {inode : Inode} (hinfo : info.InRange) (h : inode.FitsIn info) :
    GetsAt (Device.readInode info inode.id) (calculateOffset info inode.id) (encodeInode inode)
      (some inode) := by
  refine Gets.at ?_ (calculateOffset info inode.id)
  refine (gets_readWhile rfl).bind ((gets_readWhile ?_).map ?_)
  · rw [length_encodeArray, h.length]
  · simp only [decodeInode_encode h (hinfo.inodeId_lt h.id_lt)]

/-- The offset of a block, as a sum that no type cuts off. -/
theorem FsInfo.InRange.blockOffset_eq (hinfo : info.InRange) {b : Nat}
    (hb : b < info.blocksCount) :
    blockOffset info b = (blocksStart info + b * info.blockSize : Nat) := by
  have hlt := hinfo.blocks b hb
  have hprod : b * info.blockSize < 2 ^ 31 := by omega
  unfold blockOffset
  rw [Int.bmod_eq_of_le]
  · push_cast
    rfl
  · omega
  · push_cast
    omega

/-- The loop over the records puts their bytes one after the other. -/
theorem puts_writeRecords {rs : List BlockRecord} (h : ∀ r ∈ rs, r.FitsIn info) :
    Puts (Device.writeRecords info rs.length rs) (rs.flatMap encodeRecord) true := by
  induction rs with
  | nil => exact puts_pure true
  | cons r rs ih =>
    have hr := h r (List.mem_cons_self ..)
    have hrecord : Puts (Device.writeBlockRecord info r) (encodeRecord r) true :=
      (puts_buffer (length_encodeLE 2 r.inodeId)).bind (puts_buffer hr.length)
    rw [List.flatMap_cons, List.length_cons, Device.writeRecords]
    exact hrecord.bind (ih fun r' hr' => h r' (List.mem_cons_of_mem r hr'))

/-- The loop over the records gets them back. -/
theorem gets_readRecords {rs : List BlockRecord} (h : ∀ r ∈ rs, r.FitsIn info) :
    Gets (Device.readRecords info rs.length) (rs.flatMap encodeRecord) (some rs) := by
  induction rs with
  | nil => exact gets_pure (some [])
  | cons r rs ih =>
    have hr := h r (List.mem_cons_self ..)
    have hrecord : Gets (Device.readBlockRecord info) (encodeRecord r) (some r) := by
      refine (gets_readWhile (length_encodeLE 2 r.inodeId)).bind ((gets_readWhile hr.length).map ?_)
      have hid : decodeLE (encodeLE 2 r.inodeId) = r.inodeId := decodeLE_encodeLE hr.inodeId_lt
      simp only [hid]
    rw [List.flatMap_cons, List.length_cons, Device.readRecords]
    exact hrecord.bind ((ih fun r' hr' => h r' (List.mem_cons_of_mem r hr')).map rfl)

/-- `write_block` puts the bytes of the block at its offset. -/
theorem puts_writeBlock {block : Block} (hinfo : info.InRange) (h : block.FitsIn info) :
    PutsAt (Device.writeBlock info block)
      (blocksStart info + block.info.blockId * info.blockSize) (encodeBlock info block)
      .stored := by
  unfold Device.writeBlock
  rw [hinfo.blockOffset_eq h.blockId_lt]
  refine Puts.at ?_ _
  refine (puts_buffer rfl).bind ?_
  simp only [Bool.not_true, Bool.false_eq_true, if_false, if_neg h.notMixed, encodeBody]
  rcases hrs : block.records with _ | rs
  · by_cases hzero : block.info.dataSize = 0
    · simp only [if_pos hzero]
      exact puts_pure _
    · simp only [if_neg hzero]
      exact (puts_writeWhile h.buffer).map rfl
  · obtain ⟨hlen, hfit⟩ := h.records rs hrs
    rw [← hlen]
    exact (puts_writeRecords hfit).map rfl

/-- The block `read_block` returns: its data buffer holds the bytes the header counts. -/
def Block.readBack (info : FsInfo) (block : Block) : Block :=
  { block with data := Store.dataBuffer info (match block.records with
      | some _ => []
      | none => block.data.take block.info.dataSize) }

/-- A block has room for its header, so the size of its data does not wrap around. -/
theorem Block.FitsIn.maxSizeOfData_eq {block : Block} (h : block.FitsIn info)
    (hinfo : info.InRange) : maxSizeOfData info = info.blockSize - sizeofBlockInfo := by
  have hsize : info.blockSize < 2 ^ 16 := hinfo.fields _ (by simp)
  have hroom := h.dataFits
  unfold maxSizeOfData
  unfold sizeofBlockInfo at *
  omega

/-- The data of a block that fits has room in its buffer. -/
theorem Block.FitsIn.dataSize_le {block : Block} (h : block.FitsIn info) (hinfo : info.InRange) :
    block.info.dataSize ≤ maxSizeOfData info := by
  have hroom := h.dataFits
  rw [h.maxSizeOfData_eq hinfo]
  omega

/-- A block with records counts no data, and one with data has none. -/
theorem Block.FitsIn.dataSize_eq_zero {block : Block} (h : block.FitsIn info)
    {rs : List BlockRecord} (hrs : block.records = some rs) :
    block.info.recordsCount ≠ 0 ∧ block.info.dataSize = 0 := by
  have hcount : block.info.recordsCount ≠ 0 := by
    intro hzero
    have hnull := h.null.mpr hzero
    rw [hrs] at hnull
    cases hnull
  refine ⟨hcount, ?_⟩
  by_contra hdata
  exact h.notMixed ⟨hcount, hdata⟩

/-- The data that the header counts is read back. -/
theorem Block.take_readBack {block : Block} (hinfo : info.InRange) (h : block.FitsIn info) :
    (block.readBack info).data.take block.info.dataSize =
      block.data.take block.info.dataSize := by
  rcases hrs : block.records with _ | rs
  · have hle := (h.dataSize_le hinfo).trans h.buffer
    have hlen : (block.data.take block.info.dataSize).length = block.info.dataSize := by
      rw [List.length_take]
      exact Nat.min_eq_left hle
    simp only [Block.readBack, hrs, Store.dataBuffer, memcpy, List.take_zero, List.nil_append]
    exact List.take_left' hlen
  · rw [(h.dataSize_eq_zero hrs).2, List.take_zero, List.take_zero]

/-- The part of the body that is read: the header says how much of the buffer counts. -/
def Block.readBody (block : Block) : List UInt8 :=
  match block.records with
  | some rs => rs.flatMap encodeRecord
  | none => block.data.take block.info.dataSize

/-- A file that holds a block holds what is read of it. -/
theorem Block.FitsIn.holdsAt_readBody {block : Block} (h : block.FitsIn info)
    (hinfo : info.InRange) {file : List UInt8} {offset : Nat}
    (hf : HoldsAt file offset (encodeBlock info block)) :
    HoldsAt file offset (encodeBlockInfo block.info ++ block.readBody) := by
  obtain ⟨hheader, hbody⟩ := holdsAt_append.mp hf
  refine holdsAt_append.mpr ⟨hheader, List.IsPrefix.trans ?_ hbody⟩
  unfold Block.readBody encodeBody
  rcases block.records with _ | rs
  · by_cases hzero : block.info.dataSize = 0
    · simp only [hzero, List.take_zero, if_true]
      exact List.nil_prefix
    · -- the whole buffer was stored
      simp only [if_neg hzero]
      exact List.take_prefix_take_left (h.dataSize_le hinfo)
  · exact List.prefix_refl _

/-- The header of a block that fits is read back. -/
theorem Block.FitsIn.decodeHeader {block : Block} (h : block.FitsIn info) (hinfo : info.InRange) :
    decodeBlockInfo (encodeBlockInfo block.info) = block.info :=
  decodeBlockInfo_encodeBlockInfo (hinfo.blockId_lt h.blockId_lt) h.inodeId_lt h.recordsCount_lt
    h.dataSize_lt

/-- `read_block` on a block without records. -/
theorem getsAt_readBlock_data {block : Block} (hinfo : info.InRange) (h : block.FitsIn info)
    (hrs : block.records = none) :
    GetsAt (Device.readBlock info block.info.blockId)
      (blocksStart info + block.info.blockId * info.blockSize)
      (encodeBlockInfo block.info ++ block.data.take block.info.dataSize)
      (.read (block.readBack info)) := by
  unfold Device.readBlock
  rw [hinfo.blockOffset_eq h.blockId_lt]
  refine Gets.at ((gets_readWhile rfl).bind ?_) _
  have hcount := h.null.mp hrs
  have hback : block.readBack info =
      ⟨block.info, none, Store.dataBuffer info (block.data.take block.info.dataSize)⟩ := by
    simp only [Block.readBack, hrs]
  rw [hback]
  by_cases hzero : block.info.dataSize = 0
  · simp only [h.decodeHeader hinfo, hcount, hzero, ne_eq, not_true_eq_false, false_and, if_false,
      List.take_zero]
    exact gets_pure _
  · have hle := h.dataSize_le hinfo
    have hlen : (block.data.take block.info.dataSize).length = block.info.dataSize := by
      rw [List.length_take]
      exact Nat.min_eq_left (hle.trans h.buffer)
    simp only [h.decodeHeader hinfo, hcount, hzero, ne_eq, not_true_eq_false, not_false_eq_true,
      false_and, if_false, if_true, if_neg (Nat.not_lt.mpr hle)]
    refine (gets_readWhile hlen).map ?_
    simp only [Option.getD_some]

/-- `read_block` on a block with records. -/
theorem getsAt_readBlock_records {block : Block} (hinfo : info.InRange) (h : block.FitsIn info)
    {rs : List BlockRecord} (hrs : block.records = some rs) :
    GetsAt (Device.readBlock info block.info.blockId)
      (blocksStart info + block.info.blockId * info.blockSize)
      (encodeBlockInfo block.info ++ rs.flatMap encodeRecord) (.read (block.readBack info)) := by
  unfold Device.readBlock
  rw [hinfo.blockOffset_eq h.blockId_lt]
  refine Gets.at ((gets_readWhile rfl).bind ?_) _
  obtain ⟨hcount, hzero⟩ := h.dataSize_eq_zero hrs
  obtain ⟨hlen, hfit⟩ := h.records rs hrs
  simp only [h.decodeHeader hinfo, hcount, hzero, ne_eq, not_true_eq_false, not_false_eq_true,
    and_false, if_false, if_true]
  rw [← hlen]
  refine (gets_readRecords hfit).map ?_
  simp only [Block.readBack, hrs]

/-- **`read_block`** where the file holds what `write_block` stored. -/
theorem gets_readBlock {block : Block} (hinfo : info.InRange) (h : block.FitsIn info)
    (f : ImageFile) (hf : HoldsAt f.bytes (blocksStart info + block.info.blockId * info.blockSize)
      (encodeBlock info block)) :
    ∃ pos, (Device.readBlock info block.info.blockId).run? fileHandler f =
      some (.done (.read (block.readBack info)), ⟨f.bytes, pos⟩) := by
  have hread := h.holdsAt_readBody hinfo hf
  unfold Block.readBody at hread
  rcases hrs : block.records with _ | rs
  · rw [hrs] at hread
    exact ⟨_, getsAt_readBlock_data hinfo h hrs f hread⟩
  · rw [hrs] at hread
    exact ⟨_, getsAt_readBlock_records hinfo h hrs f hread⟩

end Codecs

end MiniExt
