import MiniExt.Disk.Runs

namespace MiniExt

open Lib

/-!
# The flat image

The image is one array of bytes, but the codecs use it as a store of separate records: every
item has a region of its own, and what is stored in one region stays there until it is stored
again.

* `Item`, `Item.start`, `Item.size` — the regions of an image;
* `Item.disjoint` — two items never overlap;
* `Entry` — a value to be stored, with what it encodes to and how it is read back;
* `RecordStore`, `Holds` — the store of records, and bytes that hold its values;
* `last_write_is_read` — after any run of writes, an item is read as it was last written.
-/

/-! ### The regions -/

/-- What the codecs store. -/
inductive Item where
  | superblock
  | table
  | inode (id : Nat)
  | block (id : Nat)
  deriving DecidableEq, Repr

/-- The item is one of the image. -/
def Item.FitsIn (info : FsInfo) : Item → Prop
  | .superblock | .table => True
  | .inode id => id < info.inodesCount
  | .block id => id < info.blocksCount

/-- Where the region of an item starts. -/
def Item.start (info : FsInfo) : Item → Nat
  | .superblock => 0
  | .table => sizeofSuperblock info
  | .inode id => calculateOffset info id
  | .block id => blocksStart info + id * info.blockSize

/-- How long the region of an item is. -/
def Item.size (info : FsInfo) : Item → Nat
  | .superblock => sizeofSuperblock info
  | .table => sizeofDescriptorsTable info
  | .inode _ => sizeofInode info
  | .block _ => info.blockSize

/-- The region of one item ends before that of the other starts. -/
def Item.Before (info : FsInfo) (a b : Item) : Prop := a.start info + a.size info ≤ b.start info

/-- The regions of an array of items of one size do not overlap. -/
theorem array_apart (start size : Nat) {i j : Nat} (h : i < j) :
    start + i * size + size ≤ start + j * size := by
  have hle : (i + 1) * size ≤ j * size := Nat.mul_le_mul_right size h
  rw [Nat.add_mul, Nat.one_mul] at hle
  omega

/-- An item of an array ends inside the array. -/
theorem array_inside (start size : Nat) {i n : Nat} (h : i < n) :
    start + i * size + size ≤ start + n * size := array_apart start size h

/-- **Two items** of an image never overlap. -/
theorem Item.disjoint {info : FsInfo} (hinfo : info.InRange) {a b : Item} (ha : a.FitsIn info)
    (hb : b.FitsIn info) (hne : a ≠ b) : a.Before info b ∨ b.Before info a := by
  have hinodes : sizeofInodesBlock info = info.inodesCount * sizeofInode info :=
    Nat.mod_eq_of_lt hinfo.inodes
  -- superblock, table, inodes, blocks: the four kinds lie one after the other
  have hinode : ∀ i, Item.table.Before info (.inode i) := by
    intro i
    show sizeofSuperblock info + sizeofDescriptorsTable info ≤ calculateOffset info i
    unfold calculateOffset
    omega
  have hblock : ∀ x, sizeofSuperblock info + sizeofDescriptorsTable info ≤
      Item.start info (.block x) := by
    intro x
    show _ ≤ blocksStart info + x * info.blockSize
    unfold blocksStart
    omega
  have hlast : ∀ i < info.inodesCount, ∀ x, (Item.inode i).Before info (.block x) := by
    intro i hi x
    have hinside : _ + i * sizeofInode info + sizeofInode info ≤ _ + _ * sizeofInode info :=
      array_inside (sizeofSuperblock info + sizeofDescriptorsTable info) (sizeofInode info) hi
    show calculateOffset info i + sizeofInode info ≤ blocksStart info + x * info.blockSize
    unfold calculateOffset blocksStart
    omega
  -- the superblock comes before everything else
  have hfirst : ∀ c, c ≠ .superblock → Item.superblock.Before info c := by
    intro c hc
    show 0 + sizeofSuperblock info ≤ c.start info
    cases c with
    | superblock => exact absurd rfl hc
    | table => exact (Nat.zero_add _).le
    | inode i =>
      have htable : sizeofSuperblock info + sizeofDescriptorsTable info ≤ _ := hinode i
      omega
    | block x =>
      have htable := hblock x
      omega
  cases a with
  | superblock => exact .inl (hfirst b hne.symm)
  | table =>
    cases b with
    | superblock => exact .inr (hfirst _ hne)
    | table => exact absurd rfl hne
    | inode i => exact .inl (hinode i)
    | block x => exact .inl (hblock x)
  | inode i =>
    cases b with
    | superblock => exact .inr (hfirst _ hne)
    | table => exact .inr (hinode i)
    | inode j =>
      have hij : i ≠ j := fun h => hne (congrArg Item.inode h)
      exact (Nat.lt_or_gt_of_ne hij).imp (array_apart _ _) (array_apart _ _)
    | block x => exact .inl (hlast i ha x)
  | block x =>
    cases b with
    | superblock => exact .inr (hfirst _ hne)
    | table => exact .inr (hblock x)
    | inode i => exact .inr (hlast i hb x)
    | block y =>
      have hxy : x ≠ y := fun h => hne (congrArg Item.block h)
      exact (Nat.lt_or_gt_of_ne hxy).imp (array_apart _ _) (array_apart _ _)

/-! ### Values and their records -/

/-- A value to be stored. -/
inductive Entry where
  | superblock (sb : Superblock)
  | table (dt : DescriptorsTable)
  | inode (i : Inode)
  | block (b : Block)

/-- Where the value belongs. -/
def Entry.item : Entry → Item
  | .superblock _ => .superblock
  | .table _ => .table
  | .inode i => .inode i.id
  | .block b => .block b.info.blockId

/-- The value is one of the geometry. -/
def Entry.FitsIn (info : FsInfo) : Entry → Prop
  | .superblock sb => sb.FitsIn info
  | .table dt => dt.FitsIn info
  | .inode i => i.FitsIn info
  | .block b => b.FitsIn info

/-- What is stored for the value. -/
def Entry.encode (info : FsInfo) : Entry → List UInt8
  | .superblock sb => encodeSuperblock sb
  | .table dt => encodeTable dt
  | .inode i => encodeInode i
  | .block b => encodeBlock info b

/-- Store the value; `true` if that did not fail. -/
def Entry.write (info : FsInfo) : Entry → DeviceProg Bool
  | .superblock sb => Device.writeSuperBlock sb
  | .table dt => Device.writeDescriptorTable info dt
  | .inode i => Device.writeInode info i
  | .block b => do return (← Device.writeBlock info b) = .stored

/-- The fields of a block that are kept: header, records, and the data its header counts. -/
structure Block.SameFields (a b : Block) : Prop where
  info : a.info = b.info
  records : a.records = b.records
  data : a.data.take b.info.dataSize = b.data.take b.info.dataSize

/-- On this file, the program returns the value. -/
def Yields {α : Type} (p : DeviceProg α) (f : ImageFile) (a : α) : Prop :=
  ∃ f', p.run? fileHandler f = some (.done a, f')

/-- Reading the item of the value returns the value's fields. -/
def Entry.ReadFrom (info : FsInfo) (f : ImageFile) : Entry → Prop
  | .superblock sb => Yields Device.readSuperBlock f (some sb)
  | .table dt => Yields (Device.readDescriptorsTable info) f (some dt)
  | .inode i => Yields (Device.readInode info i.id) f (some i)
  | .block b => ∃ read, Yields (Device.readBlock info b.info.blockId) f (.read read) ∧
      read.SameFields b

/-- An entry that fits is an item of the geometry. -/
theorem Entry.FitsIn.item {info : FsInfo} {e : Entry} (h : e.FitsIn info) : e.item.FitsIn info := by
  cases e with
  | superblock sb => exact trivial
  | table dt => exact trivial
  | inode i => exact Inode.FitsIn.id_lt h
  | block b => exact Block.FitsIn.blockId_lt h

/-- A record has its length. -/
theorem length_encodeRecord {info : FsInfo} {r : BlockRecord} (h : r.FitsIn info) :
    (encodeRecord r).length = sizeofBlockRecord info := by
  unfold encodeRecord sizeofBlockRecord
  rw [List.length_append, length_encodeLE, h.length]

/-- Records have theirs together. -/
theorem length_flatMap_encodeRecord {info : FsInfo} {rs : List BlockRecord}
    (h : ∀ r ∈ rs, r.FitsIn info) :
    (rs.flatMap encodeRecord).length = rs.length * sizeofBlockRecord info := by
  induction rs with
  | nil => exact (Nat.zero_mul _).symm
  | cons r rs ih =>
    obtain ⟨hr, hrs⟩ := List.forall_mem_cons.mp h
    rw [List.flatMap_cons, List.length_append, length_encodeRecord hr, ih hrs, List.length_cons,
      Nat.add_mul, Nat.one_mul, Nat.add_comm]

/-- A block does not store more than a block. -/
theorem Block.FitsIn.length_encode {info : FsInfo} (hinfo : info.InRange) {b : Block}
    (h : b.FitsIn info) : (encodeBlock info b).length ≤ info.blockSize := by
  have hroom := h.dataFits
  have hmax := h.maxSizeOfData_eq hinfo
  unfold encodeBlock encodeBody
  rw [List.length_append, length_encodeBlockInfo]
  cases hrs : b.records with
  | none =>
    show _ + (if b.info.dataSize = 0 then [] else b.data.take (maxSizeOfData info)).length ≤ _
    split
    · rw [List.length_nil]
      omega
    · have htake := List.length_take_le (maxSizeOfData info) b.data
      omega
  | some rs =>
    obtain ⟨hcount, hfit⟩ := h.records rs hrs
    have hbody := length_flatMap_encodeRecord hfit
    have hrecords := h.recordsFit
    rw [hcount] at hbody
    show _ + (rs.flatMap encodeRecord).length ≤ _
    omega

/-- A value does not store more than the region of its item. -/
theorem Entry.FitsIn.length_encode {info : FsInfo} (hinfo : info.InRange) {e : Entry}
    (h : e.FitsIn info) : (e.encode info).length ≤ e.item.size info := by
  cases e with
  | superblock sb =>
    obtain ⟨hgeometry, hinodes, hblocks⟩ : sb.FitsIn info := h
    show (encodeSuperblock sb).length ≤ sizeofSuperblock info
    unfold encodeSuperblock sizeofSuperblock
    rw [List.length_append, List.length_append, length_encodeFsInfo, length_encodeBools,
      length_encodeBools, hinodes, hblocks]
    omega
  | table dt =>
    obtain ⟨hreserved, hinodes, hpositions, -, -⟩ : dt.FitsIn info := h
    have hsize : sizeofDescriptorsTable info = info.descriptorsCount * (1 + 2 + 4) :=
      Nat.mod_eq_of_lt hinfo.table
    show (encodeTable dt).length ≤ sizeofDescriptorsTable info
    unfold encodeTable
    rw [List.length_append, List.length_append, length_encodeBools, length_encodeArray,
      length_encodeArray, hreserved, hinodes, hpositions, hsize]
    omega
  | inode i =>
    obtain ⟨-, -, hlength, -⟩ : i.FitsIn info := h
    show (encodeInode i).length ≤ sizeofInode info
    unfold encodeInode sizeofInode
    rw [List.length_append, length_encodeInodeInfo, length_encodeArray, hlength]
  | block b => exact Block.FitsIn.length_encode hinfo h

/-- **Storing a value** writes what it encodes to, where its item starts. -/
theorem Entry.FitsIn.puts {info : FsInfo} (hinfo : info.InRange) {e : Entry} (h : e.FitsIn info) :
    PutsAt (e.write info) (e.item.start info) (e.encode info) true := by
  cases e with
  | superblock sb => exact puts_writeSuperBlock h
  | table dt => exact puts_writeDescriptorTable h
  | inode i => exact puts_writeInode h
  | block b =>
    intro f
    have hrun := puts_writeBlock hinfo h f
    show (Device.writeBlock info b >>= fun r => pure (decide (r = .stored))).run?
      fileHandler f = _
    rw [Prog.run?_bind, hrun]
    rfl

/-- **Reading a value** where the file holds what it encodes to. -/
theorem Entry.FitsIn.gets {info : FsInfo} (hinfo : info.InRange) {e : Entry} (h : e.FitsIn info)
    (f : ImageFile) (hf : HoldsAt f.bytes (e.item.start info) (e.encode info)) :
    e.ReadFrom info f := by
  cases e with
  | superblock sb => exact ⟨_, gets_readSuperBlock hinfo h f hf⟩
  | table dt => exact ⟨_, gets_readDescriptorsTable h f hf⟩
  | inode i => exact ⟨_, gets_readInode hinfo h f hf⟩
  | block b =>
    obtain ⟨pos, hrun⟩ := gets_readBlock hinfo h f hf
    refine ⟨b.readBack info, ⟨_, hrun⟩, rfl, rfl, ?_⟩
    exact Block.take_readBack hinfo h

/-! ### A store of separate records -/

/-- The abstract store: an item holds the value last stored in it. -/
abbrev RecordStore := Item → Option Entry

/-- An item is written. -/
def RecordStore.put (store : RecordStore) (e : Entry) : RecordStore :=
  Function.update store e.item (some e)

/-- The bytes hold every value of the store, at the place of its item. -/
def Holds (info : FsInfo) (bytes : List UInt8) (store : RecordStore) : Prop :=
  ∀ item e, store item = some e →
    e.item = item ∧ e.FitsIn info ∧ HoldsAt bytes (item.start info) (e.encode info)

/-- Nothing is held before the first write. -/
theorem holds_empty (info : FsInfo) (bytes : List UInt8) : Holds info bytes fun _ => none := by
  intro item e he
  cases he

/-- **One write** of the image is one of the store. -/
theorem Holds.put {info : FsInfo} (hinfo : info.InRange) {bytes : List UInt8}
    {store : RecordStore} (h : Holds info bytes store) {e : Entry} (he : e.FitsIn info) :
    Holds info (writeAt 0 bytes (e.item.start info) (e.encode info)) (store.put e) := by
  intro item e' he'
  by_cases hitem : item = e.item
  · -- the item itself holds the new value
    rw [hitem, RecordStore.put, Function.update_self, Option.some_inj] at he'
    rw [hitem, ← he']
    exact ⟨rfl, he, holdsAt_writeAt 0 bytes _ _⟩
  · -- every other item lies beside it
    rw [RecordStore.put, Function.update_of_ne hitem] at he'
    obtain ⟨rfl, hfits, hholds⟩ := h item e' he'
    refine ⟨rfl, hfits, hholds.writeAt ?_⟩
    have hsize := he.length_encode hinfo
    have hsize' := hfits.length_encode hinfo
    rcases Item.disjoint hinfo he.item hfits.item (Ne.symm hitem) with hbefore | hafter
    · left
      have hend : e.item.start info + e.item.size info ≤ e'.item.start info := hbefore
      omega
    · right
      have hend : e'.item.start info + e'.item.size info ≤ e.item.start info := hafter
      omega

/-- Store several values, one after the other. -/
def writeEntries (info : FsInfo) : List Entry → DeviceProg Unit
  | [] => return
  | e :: es => do
    let _ ← e.write info
    writeEntries info es

/-- **A run of writes** of the image is one of the store. -/
theorem Holds.run {info : FsInfo} (hinfo : info.InRange) {es : List Entry}
    (hfit : ∀ e ∈ es, e.FitsIn info) {store : RecordStore} {f : ImageFile}
    (h : Holds info f.bytes store) :
    ∃ f', (writeEntries info es).run? fileHandler f = some (.done (), f') ∧
      Holds info f'.bytes (es.foldl RecordStore.put store) := by
  induction es generalizing store f with
  | nil => exact ⟨f, rfl, h⟩
  | cons e es ih =>
    obtain ⟨he, hes⟩ := List.forall_mem_cons.mp hfit
    obtain ⟨f', hrun, hholds⟩ := ih hes (h.put hinfo he) (f := ⟨_, _⟩)
    refine ⟨f', ?_, hholds⟩
    rw [writeEntries, Prog.run?_bind, he.puts hinfo f]
    exact hrun

/-- Values stored in other items leave an item as it was. -/
theorem foldl_put_of_ne {es : List Entry} {item : Item} (h : ∀ e ∈ es, e.item ≠ item)
    (store : RecordStore) : es.foldl RecordStore.put store item = store item := by
  induction es generalizing store with
  | nil => rfl
  | cons e es ih =>
    obtain ⟨he, hes⟩ := List.forall_mem_cons.mp h
    rw [List.foldl_cons, ih hes, RecordStore.put, Function.update_of_ne he.symm]

/-- **The flat image is a store of separate records**: after any run of writes, wherever the
    file stands, an item is read as it was last written. -/
theorem last_write_is_read {info : FsInfo} (hinfo : info.InRange) {pre post : List Entry}
    {e : Entry} (hfit : ∀ x ∈ pre ++ e :: post, x.FitsIn info)
    (hlast : ∀ x ∈ post, x.item ≠ e.item) (f : ImageFile) :
    ∃ f', (writeEntries info (pre ++ e :: post)).run? fileHandler f = some (.done (), f') ∧
      ∀ pos, e.ReadFrom info ⟨f'.bytes, pos⟩ := by
  obtain ⟨f', hrun, hholds⟩ := Holds.run hinfo hfit (holds_empty info f.bytes)
  refine ⟨f', hrun, ?_⟩
  have hstore : (pre ++ e :: post).foldl RecordStore.put (fun _ => none) e.item = some e := by
    rw [List.foldl_append, List.foldl_cons, foldl_put_of_ne hlast, RecordStore.put,
      Function.update_self]
  obtain ⟨-, hfits, hat⟩ := hholds e.item e hstore
  intro pos
  exact hfits.gets hinfo ⟨f'.bytes, pos⟩ hat

/-- The default geometry is one of those. -/
theorem defaultFsInfo_inRange : defaultFsInfo.InRange where
  fields := by decide
  table := by decide
  inodes := by decide
  blocks := by
    intro b hb
    have hstart : blocksStart defaultFsInfo = 3070 := by rfl
    rw [defaultFsInfo_blocksCount] at hb
    rw [hstart, defaultFsInfo_blockSize]
    omega

/-- A first superblock of the default geometry. -/
def emptySuperblock : Superblock :=
  ⟨defaultFsInfo, List.replicate 128 false, List.replicate 128 false⟩

/-- The block of a directory with one file. -/
def oneRecordBlock : Block where
  info := ⟨3, 0, 1, 0⟩
  records := some [⟨1, 97 :: List.replicate 15 0⟩]
  data := List.replicate 121 0

/-- An empty superblock fits. -/
theorem emptySuperblock_fitsIn : emptySuperblock.FitsIn defaultFsInfo := ⟨rfl, rfl, rfl⟩

/-- A block with one record fits. -/
theorem oneRecordBlock_fitsIn : oneRecordBlock.FitsIn defaultFsInfo where
  blockId_lt := by decide
  inodeId_lt := by decide
  recordsCount_lt := by decide
  dataSize_lt := by decide
  notMixed := by decide
  recordsFit := by decide
  dataFits := by decide
  null := by decide
  records := by
    rintro rs ⟨⟩
    refine ⟨rfl, ?_⟩
    intro r hr
    rw [List.mem_singleton] at hr
    rw [hr]
    exact ⟨by decide, rfl⟩
  buffer := by decide

/-- The superblock, a block twice, then the inode of a file: the block is read as it was
    written the second time. -/
theorem last_write_is_read_directory :
    ∃ f', (writeEntries defaultFsInfo [.superblock emptySuperblock, .block oneRecordBlock,
        .block oneRecordBlock, .inode ⟨1, 0, true, List.replicate 8 0⟩]).run? fileHandler ⟨[], 0⟩ =
        some (.done (), f') ∧
      ∀ pos, (Entry.block oneRecordBlock).ReadFrom defaultFsInfo ⟨f'.bytes, pos⟩ := by
  have hrun := @last_write_is_read defaultFsInfo defaultFsInfo_inRange
    [.superblock emptySuperblock, .block oneRecordBlock]
    [.inode ⟨1, 0, true, List.replicate 8 0⟩] (.block oneRecordBlock)
  refine hrun ?_ ?_ ⟨[], 0⟩
  · intro x hx
    simp only [List.cons_append, List.nil_append, List.mem_cons, List.not_mem_nil,
      or_false] at hx
    rcases hx with rfl | rfl | rfl | rfl
    · exact emptySuperblock_fitsIn
    · exact oneRecordBlock_fitsIn
    · exact oneRecordBlock_fitsIn
    · exact ⟨by decide, by decide, rfl, by decide⟩
  · intro x hx
    rw [List.mem_singleton] at hx
    rw [hx]
    exact Item.noConfusion

end MiniExt
