import MiniExt.Disk.Contract
import MiniExt.Disk.Machine
import MiniExt.Properties.FlatImage
import MiniExt.Runs.Basic

namespace MiniExt

open Lib

/-!
# The bytes of an image and its records

The record store of `Host` says what the image holds, record by record; on disk there are only
bytes.  A file represents a store if every record of the store is encoded at its place in the
file, and then every call on the store is matched by its codec on the file.

* `Slot.encode`, `Store.encoded` — the bytes of each record;
* `Store.Fits` — the records fit their fields, and none leaves its region;
* `Represents` — a file that holds every record of a store;
* `Represents.put` — a record is stored, the others stay;
* `refines_hostHandler` — the byte host refines the record host, call by call.
-/

/-! ### Records as bytes -/

/-- What the body of a block holds on disk. -/
def Body.encode : Body → List UInt8
  | .unwritten => []
  | .records rs => rs.flatMap encodeRecord
  | .data bytes => bytes

/-- A block on disk: its header, and behind it what was last stored there. -/
def Slot.encode (s : Slot) : List UInt8 := encodeBlockInfo s.info ++ s.body.encode

/-- The numbers of a header fit their fields, and the block is one of the image. -/
structure BlockInfo.FitsIn (info : FsInfo) (header : BlockInfo) : Prop where
  blockId_lt : header.blockId < info.blocksCount
  inodeId_lt : header.inodeId < 2 ^ 16
  recordsCount_lt : header.recordsCount < 2 ^ 8
  dataSize_lt : header.dataSize < 2 ^ 16

/-- The body does not leave its block. -/
def Body.FitsIn (info : FsInfo) : Body → Prop
  | .unwritten => True
  | .records rs => (∀ r ∈ rs, r.FitsIn info) ∧
      rs.length * sizeofBlockRecord info ≤ maxSizeOfData info
  | .data bytes => bytes.length = maxSizeOfData info

namespace Store

/-- The bytes a store holds for an item of the image. -/
def encoded (st : Store) : Item → Option (List UInt8)
  | .superblock => st.superblock.map encodeSuperblock
  | .table => st.descriptorsTable.map encodeTable
  | .inode i => (st.inodes i).map encodeInode
  | .block b => (st.slots b).map Slot.encode

/-- Every record fits its fields and its region, and is stored under its own number. -/
structure Fits (st : Store) : Prop where
  superblock : ∀ {sb}, st.superblock = some sb → sb.FitsIn defaultFsInfo
  table : ∀ {dt}, st.descriptorsTable = some dt → dt.FitsIn defaultFsInfo
  inode : ∀ {i inode}, st.inodes i = some inode → inode.id = i ∧ inode.FitsIn defaultFsInfo
  slot : ∀ {b s}, st.slots b = some s →
    s.info.blockId = b ∧ s.info.FitsIn defaultFsInfo ∧ s.body.FitsIn defaultFsInfo

end Store

/-- A body that fits is encoded in the room behind the header. -/
theorem Body.FitsIn.length_encode_le {body : Body} (h : body.FitsIn defaultFsInfo) :
    body.encode.length ≤ maxSizeOfData defaultFsInfo := by
  cases body with
  | unwritten => exact Nat.zero_le _
  | records rs =>
    obtain ⟨hfit, hroom⟩ := h
    rwa [← length_flatMap_encodeRecord hfit] at hroom
  | data bytes => exact le_of_eq h

/-- What a store holds for an item lies in the region of the item. -/
theorem Store.Fits.encoded_le {st : Store} (h : st.Fits) {item : Item} {data : List UInt8}
    (hdata : st.encoded item = some data) :
    item.FitsIn defaultFsInfo ∧ data.length ≤ item.size defaultFsInfo := by
  have hentry : ∀ e : Entry, e.FitsIn defaultFsInfo → e.item.FitsIn defaultFsInfo ∧
      (e.encode defaultFsInfo).length ≤ e.item.size defaultFsInfo :=
    fun e he => ⟨he.item, he.length_encode defaultFsInfo_inRange⟩
  cases item with
  | superblock =>
    obtain ⟨sb, hsb, rfl⟩ := Option.map_eq_some_iff.mp hdata
    exact hentry (.superblock sb) (h.superblock hsb)
  | table =>
    obtain ⟨dt, hdt, rfl⟩ := Option.map_eq_some_iff.mp hdata
    exact hentry (.table dt) (h.table hdt)
  | inode i =>
    obtain ⟨inode, hinode, rfl⟩ := Option.map_eq_some_iff.mp hdata
    obtain ⟨rfl, hfits⟩ := h.inode hinode
    exact hentry (.inode inode) hfits
  | block b =>
    obtain ⟨s, hs, rfl⟩ := Option.map_eq_some_iff.mp hdata
    obtain ⟨rfl, hheader, hbody⟩ := h.slot hs
    refine ⟨hheader.blockId_lt, ?_⟩
    have hle := hbody.length_encode_le
    rw [maxSizeOfData_default] at hle
    show (encodeBlockInfo s.info ++ s.body.encode).length ≤ 128
    rw [List.length_append, length_encodeBlockInfo, sizeofBlockInfo]
    omega

/-! ### Files that represent a store -/

/-- The file holds every record of the store, at the place of its item. -/
structure Represents (bytes : List UInt8) (st : Store) : Prop where
  fits : st.Fits
  holds : ∀ (item : Item) {data : List UInt8}, st.encoded item = some data →
    HoldsAt bytes (item.start defaultFsInfo) data

/-- An empty file represents an image without records; so does any other file. -/
theorem represents_blank (bytes : List UInt8) : Represents bytes .blank where
  fits := ⟨by rintro sb ⟨⟩, by rintro dt ⟨⟩, by rintro i inode ⟨⟩, by rintro b s ⟨⟩⟩
  holds := by
    intro item data hdata
    cases item <;> cases hdata

/-- **A record is stored.**  What was written lies in the region of one item: the other items
    are as they were, and the new store says what that item holds. -/
theorem Represents.put {bytes : List UInt8} {st st' : Store} (h : Represents bytes st)
    (item : Item) {data : List UInt8} (hitem : item.FitsIn defaultFsInfo)
    (hsize : data.length ≤ item.size defaultFsInfo) (hfits : st'.Fits)
    (hsame : ∀ other, other ≠ item → st'.encoded other = st.encoded other)
    (hself : ∀ held, st'.encoded item = some held →
      HoldsAt (writeAt 0 bytes (item.start defaultFsInfo) data) (item.start defaultFsInfo) held) :
    Represents (writeAt 0 bytes (item.start defaultFsInfo) data) st' where
  fits := hfits
  holds := by
    intro other held hheld
    by_cases hother : other = item
    · rw [hother] at hheld ⊢
      exact hself held hheld
    · -- the regions of two items are apart
      rw [hsame other hother] at hheld
      obtain ⟨hotherFits, hotherSize⟩ := h.fits.encoded_le hheld
      refine (h.holds other hheld).writeAt ?_
      rcases Item.disjoint defaultFsInfo_inRange hitem hotherFits (Ne.symm hother) with
        hbefore | hafter
      · left
        have hend : item.start _ + item.size _ ≤ other.start _ := hbefore
        omega
      · right
        have hend : other.start _ + other.size _ ≤ item.start _ := hafter
        omega

/-- A record that is stored whole. -/
theorem Represents.put_entry {bytes : List UInt8} {st st' : Store} (h : Represents bytes st)
    {e : Entry} (he : e.FitsIn defaultFsInfo) (hfits : st'.Fits)
    (hsame : ∀ other, other ≠ e.item → st'.encoded other = st.encoded other)
    (hself : st'.encoded e.item = some (e.encode defaultFsInfo)) :
    Represents (writeAt 0 bytes (e.item.start defaultFsInfo) (e.encode defaultFsInfo)) st' := by
  refine h.put e.item he.item (he.length_encode defaultFsInfo_inRange) hfits hsame ?_
  intro held hheld
  rw [hself] at hheld
  cases hheld
  exact holdsAt_writeAt 0 bytes _ _

section Calls

variable {st : Store} {f : ImageFile}

/-! ### Superblock, table and inodes -/

/-- A file of the records has the superblock for `read_super_block`. -/
theorem Represents.readSuperBlock (h : Represents f.bytes st) {sb : Superblock}
    (hsb : st.superblock = some sb) :
    ∃ f', Device.readSuperBlock.run? fileHandler f = some (.done (some sb), f') ∧
      f'.bytes = f.bytes := by
  have hheld : HoldsAt f.bytes 0 (encodeSuperblock sb) :=
    h.holds .superblock (congrArg (Option.map encodeSuperblock) hsb)
  exact ⟨_, gets_readSuperBlock defaultFsInfo_inRange (h.fits.superblock hsb) f hheld, rfl⟩

/-- The bytes of a superblock at its place. -/
theorem Represents.put_superblock {bytes : List UInt8} (h : Represents bytes st)
    {sb : Superblock} (hsb : sb.FitsIn defaultFsInfo) :
    Represents (writeAt 0 bytes 0 (encodeSuperblock sb)) { st with superblock := some sb } := by
  refine h.put_entry (e := .superblock sb) hsb ?_ ?_ rfl
  · refine ⟨?_, h.fits.table, h.fits.inode, h.fits.slot⟩
    rintro _ ⟨⟩
    exact hsb
  · intro other hother
    cases other with
    | superblock => exact absurd rfl hother
    | table => rfl
    | inode i => rfl
    | block b => rfl

/-- After `write_super_block` the file holds the new superblock. -/
theorem Represents.writeSuperBlock (h : Represents f.bytes st) {sb : Superblock}
    (hsb : sb.FitsIn defaultFsInfo) :
    ∃ f', (Device.writeSuperBlock sb).run? fileHandler f = some (.done true, f') ∧
      Represents f'.bytes { st with superblock := some sb } :=
  ⟨_, puts_writeSuperBlock hsb f, h.put_superblock hsb⟩

/-- A file of the records has the table for `read_descriptors_table`. -/
theorem Represents.readDescriptorsTable (h : Represents f.bytes st) {dt : DescriptorsTable}
    (hdt : st.descriptorsTable = some dt) :
    ∃ f', (Device.readDescriptorsTable defaultFsInfo).run? fileHandler f =
      some (.done (some dt), f') ∧ f'.bytes = f.bytes := by
  have hheld : HoldsAt f.bytes (sizeofSuperblock defaultFsInfo) (encodeTable dt) :=
    h.holds .table (congrArg (Option.map encodeTable) hdt)
  exact ⟨_, gets_readDescriptorsTable (h.fits.table hdt) f hheld, rfl⟩

/-- The bytes of a table at its place. -/
theorem Represents.put_table {bytes : List UInt8} (h : Represents bytes st)
    {dt : DescriptorsTable} (hdt : dt.FitsIn defaultFsInfo) :
    Represents (writeAt 0 bytes (sizeofSuperblock defaultFsInfo) (encodeTable dt))
      { st with descriptorsTable := some dt } := by
  refine h.put_entry (e := .table dt) hdt ?_ ?_ rfl
  · refine ⟨h.fits.superblock, ?_, h.fits.inode, h.fits.slot⟩
    rintro _ ⟨⟩
    exact hdt
  · intro other hother
    cases other with
    | superblock => rfl
    | table => exact absurd rfl hother
    | inode i => rfl
    | block b => rfl

/-- After `write_descriptor_table` the file holds the new table. -/
theorem Represents.writeDescriptorTable (h : Represents f.bytes st) {dt : DescriptorsTable}
    (hdt : dt.FitsIn defaultFsInfo) :
    ∃ f', (Device.writeDescriptorTable defaultFsInfo dt).run? fileHandler f =
      some (.done true, f') ∧ Represents f'.bytes { st with descriptorsTable := some dt } :=
  ⟨_, puts_writeDescriptorTable hdt f, h.put_table hdt⟩

/-- A file of the records has the inodes for `read_inode`. -/
theorem Represents.readInode (h : Represents f.bytes st) {i : Nat} {inode : Inode}
    (hi : st.inodes i = some inode) :
    ∃ f', (Device.readInode defaultFsInfo i).run? fileHandler f =
      some (.done (some inode), f') ∧ f'.bytes = f.bytes := by
  have hheld : HoldsAt f.bytes (calculateOffset defaultFsInfo i) (encodeInode inode) :=
    h.holds (.inode i) (congrArg (Option.map encodeInode) hi)
  obtain ⟨rfl, hfits⟩ := h.fits.inode hi
  exact ⟨_, gets_readInode defaultFsInfo_inRange hfits f hheld, rfl⟩

/-- After `write_inode` the file holds the new inode. -/
theorem Represents.writeInode (h : Represents f.bytes st) {inode : Inode}
    (hinode : inode.FitsIn defaultFsInfo) :
    ∃ f', (Device.writeInode defaultFsInfo inode).run? fileHandler f = some (.done true, f') ∧
      Represents f'.bytes (st.setInode inode) := by
  refine ⟨_, puts_writeInode hinode f, ?_⟩
  refine h.put_entry (e := .inode inode) hinode ?_ ?_ ?_
  · refine ⟨h.fits.superblock, h.fits.table, ?_, h.fits.slot⟩
    intro i other hother
    by_cases hi : i = inode.id
    · have hnew : some inode = some other := (if_pos hi).symm.trans hother
      cases hnew
      exact ⟨hi.symm, hinode⟩
    · exact h.fits.inode ((if_neg hi).symm.trans hother)
  · intro other hother
    cases other with
    | superblock => rfl
    | table => rfl
    | inode i =>
      have hi : i ≠ inode.id := fun heq => hother (congrArg Item.inode heq)
      exact congrArg (Option.map encodeInode) (if_neg hi)
    | block b => rfl
  · exact congrArg (Option.map encodeInode) (if_pos rfl)

/-! ### Reading a block -/

/-- **What the store answers to a read** of one of its blocks: it is mixed, it has more data
    than its buffer holds, or it is returned, and then it fits and was stored as it is. -/
theorem Store.Fits.readBlock_cases (h : st.Fits) {b : Nat} {o : Outcome Stop ReadBlockResult}
    (hread : st.readBlock defaultFsInfo b = o) (ho : o ≠ .halted .outside) :
    ∃ s, st.slots b = some s ∧
      ((s.Mixed ∧ o = .done .mixed) ∨
        (s.info.recordsCount = 0 ∧ maxSizeOfData defaultFsInfo < s.info.dataSize ∧
          o = .halted .memoryError) ∨
        ∃ x : Block, o = .done (.read x) ∧ x.info = s.info ∧ x.FitsIn defaultFsInfo ∧
          x.readBack defaultFsInfo = x ∧ x.readBody <+: s.body.encode) := by
  unfold Store.readBlock at hread
  rcases hs : st.slots b with _ | s
  · rw [hs] at hread
    exact absurd hread.symm ho
  rw [hs] at hread
  obtain ⟨-, ⟨hb, hi, hr, hd⟩, hbody⟩ := h.slot hs
  dsimp only at hread
  refine ⟨s, rfl, ?_⟩
  by_cases hmixed : s.info.recordsCount ≠ 0 ∧ s.info.dataSize ≠ 0
  · rw [if_pos hmixed] at hread
    exact .inl ⟨hmixed, hread.symm⟩
  rw [if_neg hmixed] at hread
  refine .inr ?_
  have hbuffer : ∀ bytes : List UInt8,
      maxSizeOfData defaultFsInfo ≤ (Store.dataBuffer defaultFsInfo bytes).length := by
    intro bytes
    rw [dataBuffer_eq, List.length_append, List.length_replicate, maxSizeOfData_default]
    omega
  by_cases hcount : s.info.recordsCount ≠ 0
  · -- a directory block: the records its header counts come first
    rw [if_pos hcount] at hread
    have hsize : s.info.dataSize = 0 := by
      by_contra hsize
      exact hmixed ⟨hcount, hsize⟩
    rcases hrs : s.body with _ | rs | bytes
    · rw [hrs] at hread
      exact absurd hread.symm ho
    · rw [hrs] at hread hbody
      obtain ⟨hfit, hroom⟩ := hbody
      have hrecord : sizeofBlockRecord defaultFsInfo = 18 := rfl
      rw [maxSizeOfData_default, hrecord] at hroom
      dsimp only at hread
      by_cases hle : s.info.recordsCount ≤ rs.length
      · rw [if_pos hle] at hread
        refine .inr ⟨_, hread.symm, rfl, ⟨hb, hi, hr, hd, hmixed, ?_, ?_, ?_, ?_, ?_⟩, rfl, ?_⟩
        · show 7 + s.info.recordsCount * sizeofBlockRecord defaultFsInfo ≤ 128
          rw [hrecord]
          omega
        · show 7 + s.info.dataSize ≤ 128
          omega
        · exact iff_of_false (Option.some_ne_none _) hcount
        · rintro _ ⟨⟩
          refine ⟨?_, fun r hr => hfit r (List.mem_of_mem_take hr)⟩
          rw [List.length_take]
          exact Nat.min_eq_left hle
        · exact hbuffer []
        · show (rs.take s.info.recordsCount).flatMap encodeRecord <+: rs.flatMap encodeRecord
          refine ⟨(rs.drop s.info.recordsCount).flatMap encodeRecord, ?_⟩
          rw [← List.flatMap_append, List.take_append_drop]
      · rw [if_neg hle] at hread
        exact absurd hread.symm ho
    · rw [hrs] at hread
      exact absurd hread.symm ho
  have hzero : s.info.recordsCount = 0 := not_not.mp hcount
  -- a block without records that fits, whatever its data
  have hempty : ∀ bytes : List UInt8, s.info.dataSize ≤ maxSizeOfData defaultFsInfo →
      (⟨s.info, none, Store.dataBuffer defaultFsInfo bytes⟩ : Block).FitsIn defaultFsInfo := by
    intro bytes hle
    rw [maxSizeOfData_default] at hle
    refine ⟨hb, hi, hr, hd, hmixed, ?_, ?_, iff_of_true rfl hzero, ?_, hbuffer bytes⟩
    · show 7 + s.info.recordsCount * _ ≤ 128
      rw [hzero, Nat.zero_mul]
      decide
    · show 7 + s.info.dataSize ≤ 128
      omega
    · rintro rs ⟨⟩
  rw [if_neg hcount] at hread
  by_cases hsize : s.info.dataSize ≠ 0
  · rw [if_pos hsize] at hread
    by_cases hlarge : maxSizeOfData defaultFsInfo < s.info.dataSize
    · rw [if_pos hlarge] at hread
      exact .inl ⟨hzero, hlarge, hread.symm⟩
    rw [if_neg hlarge] at hread
    rcases hdata : s.body with _ | rs | bytes
    · rw [hdata] at hread
      exact absurd hread.symm ho
    · rw [hdata] at hread
      exact absurd hread.symm ho
    · rw [hdata] at hread hbody
      have hbytes : bytes.length = maxSizeOfData defaultFsInfo := hbody
      have hlen : (bytes.take s.info.dataSize).length = s.info.dataSize := by
        rw [List.length_take]
        omega
      have htake : (Store.dataBuffer defaultFsInfo (bytes.take s.info.dataSize)).take
          s.info.dataSize = bytes.take s.info.dataSize := by
        rw [dataBuffer_eq]
        exact List.take_left' hlen
      refine .inr ⟨_, hread.symm, rfl, hempty _ (Nat.le_of_not_lt hlarge), ?_, ?_⟩
      · simp only [Block.readBack, htake]
      · simp only [Block.readBody, htake]
        exact List.take_prefix _ _
  · rw [if_neg hsize] at hread
    have hnone : s.info.dataSize = 0 := not_not.mp hsize
    refine .inr ⟨_, hread.symm, rfl, hempty _ (hnone ▸ Nat.zero_le _), ?_, ?_⟩
    · simp only [Block.readBack, hnone, List.take_zero]
    · simp only [Block.readBody, hnone, List.take_zero]
      exact List.nil_prefix

/-- A block that fits may be stored again. -/
theorem Block.FitsIn.storable {block : Block} (h : block.FitsIn defaultFsInfo) :
    block.Storable defaultFsInfo := by
  refine ⟨defaultFsInfo_inRange.blockId_lt h.blockId_lt, h.inodeId_lt, h.recordsCount_lt,
    h.dataSize_lt, ?_, ?_, fun _ => h.buffer⟩
  · rcases hrs : block.records with _ | rs
    · rw [h.null.mp hrs]
      exact Nat.zero_le _
    · rw [Block.recordList, hrs]
      exact (h.records rs hrs).1.ge
  · rcases hrs : block.records with _ | rs
    · rw [Block.recordList, hrs]
      rintro r ⟨⟩
    · rw [Block.recordList, hrs]
      exact (h.records rs hrs).2

/-- `read_block` on a header that counts both records and data, or too much data. -/
theorem run_readBlock_refused {b : Nat} {s : Slot} (hs : st.slots b = some s)
    (h : Represents f.bytes st) :
    ∃ f', f'.bytes = f.bytes ∧
      (s.Mixed → (Device.readBlock defaultFsInfo b).run? fileHandler f =
        some (.done .mixed, f')) ∧
      (s.info.recordsCount = 0 → maxSizeOfData defaultFsInfo < s.info.dataSize →
        (Device.readBlock defaultFsInfo b).run? fileHandler f =
          some (.halted .memoryError, f')) := by
  obtain ⟨rfl, ⟨hb, hi, hr, hd⟩, -⟩ := h.fits.slot hs
  have hheld : HoldsAt f.bytes (Item.start defaultFsInfo (.block s.info.blockId)) s.encode :=
    h.holds (.block s.info.blockId) (congrArg (Option.map Slot.encode) hs)
  have hdecode : decodeBlockInfo (encodeBlockInfo s.info) = s.info :=
    decodeBlockInfo_encodeBlockInfo (defaultFsInfo_inRange.blockId_lt hb) hi hr hd
  have hoffset : blockOffset defaultFsInfo s.info.blockId =
      (Item.start defaultFsInfo (.block s.info.blockId) : Nat) :=
    defaultFsInfo_inRange.blockOffset_eq hb
  have hheader : Gets (Device.readWhile sizeofBlockInfo) (encodeBlockInfo s.info)
      (some (encodeBlockInfo s.info)) := gets_readWhile rfl
  refine ⟨⟨f.bytes, Item.start defaultFsInfo (.block s.info.blockId) +
    (encodeBlockInfo s.info).length⟩, rfl, ?_, ?_⟩
  · rintro ⟨hcount, hsize⟩
    unfold Device.readBlock
    rw [hoffset, Prog.run?_bind, run_lseek, follow?_done, Prog.run?_bind,
      hheader _ (holdsAt_append.mp hheld).1, follow?_done]
    dsimp only
    rw [hdecode, if_pos ⟨hcount, hsize⟩, Prog.run?_pure]
  · intro hzero hlarge
    have hpos : s.info.dataSize ≠ 0 := by omega
    unfold Device.readBlock
    rw [hoffset, Prog.run?_bind, run_lseek, follow?_done, Prog.run?_bind,
      hheader _ (holdsAt_append.mp hheld).1, follow?_done]
    dsimp only
    rw [hdecode, if_neg (fun hmixed => hmixed.1 hzero), if_neg (not_not.mpr hzero), if_pos hpos,
      if_pos hlarge, Prog.run?_halt]

/-- **`read_block`** on a file that represents the store. -/
theorem Represents.readBlock (h : Represents f.bytes st) {b : Nat}
    {o : Outcome Stop ReadBlockResult} (hread : st.readBlock defaultFsInfo b = o)
    (ho : o ≠ .halted .outside) :
    ∃ f', (Device.readBlock defaultFsInfo b).run? fileHandler f = some (o, f') ∧
      f'.bytes = f.bytes ∧ ∀ r, o = .done r → ∀ x, r = .read x → x.Storable defaultFsInfo := by
  obtain ⟨s, hs, hcases⟩ := h.fits.readBlock_cases hread ho
  obtain ⟨f', hbytes, hrunMixed, hrunLarge⟩ := run_readBlock_refused hs h
  rcases hcases with ⟨hmixed, rfl⟩ | ⟨hzero, hlarge, rfl⟩ | ⟨x, rfl, hinfo, hfits, hback, hprefix⟩
  · exact ⟨f', hrunMixed hmixed, hbytes, by rintro r ⟨⟩ x ⟨⟩⟩
  · exact ⟨f', hrunLarge hzero hlarge, hbytes, by rintro r ⟨⟩⟩
  · -- what is read was stored: the header, and the part of the body that it counts
    obtain ⟨hid, -, -⟩ := h.fits.slot hs
    have hheld : HoldsAt f.bytes (Item.start defaultFsInfo (.block b))
        (encodeBlockInfo s.info ++ s.body.encode) :=
      h.holds (.block b) (congrArg (Option.map Slot.encode) hs)
    obtain ⟨hheld, hrest⟩ := holdsAt_append.mp hheld
    rw [← hinfo] at hheld hrest hid
    have hread := holdsAt_append.mpr ⟨hheld, List.IsPrefix.trans hprefix hrest⟩
    subst hid
    have hstorable : ∀ r, Outcome.done (.read x) = (.done r : Outcome Stop ReadBlockResult) →
        ∀ y, r = .read y → y.Storable defaultFsInfo := by
      rintro r ⟨⟩ y ⟨⟩
      exact hfits.storable
    unfold Block.readBody at hread
    rcases hrs : x.records with _ | rs
    · rw [hrs] at hread
      have hrun := getsAt_readBlock_data defaultFsInfo_inRange hfits hrs f hread
      rw [hback] at hrun
      exact ⟨_, hrun, rfl, hstorable⟩
    · rw [hrs] at hread
      have hrun := getsAt_readBlock_records defaultFsInfo_inRange hfits hrs f hread
      rw [hback] at hrun
      exact ⟨_, hrun, rfl, hstorable⟩

/-! ### Writing a block -/

/-- The first records of a list, written one after the other. -/
theorem puts_writeRecords_take {rs : List BlockRecord} {count : Nat} (hcount : count ≤ rs.length)
    (h : ∀ r ∈ rs, r.FitsIn defaultFsInfo) :
    Puts (Device.writeRecords defaultFsInfo count rs) ((rs.take count).flatMap encodeRecord)
      true := by
  induction count generalizing rs with
  | zero => exact puts_pure true
  | succ count ih =>
    cases rs with
    | nil => exact absurd hcount (Nat.not_succ_le_zero count)
    | cons r rs =>
      obtain ⟨hr, hrs⟩ := List.forall_mem_cons.mp h
      have hrecord : Puts (Device.writeBlockRecord defaultFsInfo r) (encodeRecord r) true :=
        (puts_buffer (length_encodeLE 2 r.inodeId)).bind (puts_buffer hr.length)
      rw [List.take_succ_cons, List.flatMap_cons, Device.writeRecords]
      exact hrecord.bind (ih (Nat.le_of_succ_le_succ hcount) hrs)

/-- A slot that is set hides the header that was written before. -/
theorem Store.headerWritten_setSlot (st : Store) (block : Block) (s : Slot) :
    (st.headerWritten block).setSlot block.info.blockId s = st.setSlot block.info.blockId s := by
  unfold Store.headerWritten Store.setSlot
  congr 1
  funext x
  by_cases hx : x = block.info.blockId
  · simp only [if_pos hx]
  · simp only [if_neg hx]

/-- **What `write_block` stores**: the header, and behind it nothing, or a whole body. -/
theorem writeBlock_cases {block : Block} (hblock : block.Storable defaultFsInfo)
    {o : Outcome Stop WriteBlockResult} {st' : Store}
    (hwrite : st.writeBlock defaultFsInfo block = (o, st')) (ho : o ≠ .halted .outside) :
    block.info.blockId < 128 ∧ ∃ r, o = .done r ∧
      ((st' = st.headerWritten block ∧ PutsAt (Device.writeBlock defaultFsInfo block)
          (Item.start defaultFsInfo (.block block.info.blockId)) (encodeBlockInfo block.info) r) ∨
        ∃ body : Body, body.FitsIn defaultFsInfo ∧
          st' = st.setSlot block.info.blockId ⟨block.info, body⟩ ∧
          PutsAt (Device.writeBlock defaultFsInfo block)
            (Item.start defaultFsInfo (.block block.info.blockId))
            (Slot.encode ⟨block.info, body⟩) r) := by
  unfold Store.writeBlock at hwrite
  by_cases hb : defaultFsInfo.blocksCount ≤ block.info.blockId
  · rw [if_pos hb] at hwrite
    cases hwrite
    exact absurd rfl ho
  rw [if_neg hb] at hwrite
  have hb : block.info.blockId < 128 := Nat.lt_of_not_le hb
  refine ⟨hb, ?_⟩
  have hoffset : blockOffset defaultFsInfo block.info.blockId =
      (Item.start defaultFsInfo (.block block.info.blockId) : Nat) :=
    defaultFsInfo_inRange.blockOffset_eq hb
  unfold Device.writeBlock
  rw [hoffset]
  have hheader : Puts (Device.writeWhile (encodeBlockInfo block.info) sizeofBlockInfo)
      (encodeBlockInfo block.info) true := puts_buffer rfl
  dsimp only at hwrite
  by_cases hmixed : block.info.recordsCount ≠ 0 ∧ block.info.dataSize ≠ 0
  · -- rejected after the header was written
    rw [if_pos hmixed] at hwrite
    cases hwrite
    refine ⟨.rejected, rfl, .inl ⟨rfl, (hheader.map ?_).at _⟩⟩
    simp only [Bool.not_true, Bool.false_eq_true, if_false, if_pos hmixed]
  rw [if_neg hmixed] at hwrite
  have hcount := hblock.count_le
  rcases hrs : block.records with _ | rs
  · rw [hrs] at hwrite
    have hbuffer := hblock.buffer hrs
    dsimp only at hwrite
    by_cases hzero : block.info.dataSize = 0
    · rw [if_pos hzero] at hwrite
      cases hwrite
      refine ⟨.stored, rfl, .inl ⟨rfl, (hheader.map ?_).at _⟩⟩
      simp only [Bool.not_true, Bool.false_eq_true, if_false, if_neg hmixed, if_pos hzero]
    · rw [if_neg hzero, if_neg (Nat.not_lt.mpr hbuffer), Store.headerWritten_setSlot] at hwrite
      cases hwrite
      refine ⟨.stored, rfl, .inr ⟨.data (block.data.take (maxSizeOfData defaultFsInfo)), ?_, rfl,
        (hheader.bind ?_).at _⟩⟩
      · exact List.length_take_of_le hbuffer
      · simp only [Bool.not_true, Bool.false_eq_true, if_false, if_neg hmixed, if_neg hzero]
        exact (puts_writeWhile hbuffer).map rfl
  · rw [hrs] at hwrite
    rw [Block.recordList, hrs] at hcount
    have hfit := hblock.records
    rw [Block.recordList, hrs] at hfit
    dsimp only [Option.getD_some] at hwrite hcount hfit
    rw [if_neg (Nat.not_lt.mpr hcount)] at hwrite
    by_cases hroom : maxSizeOfData defaultFsInfo <
        block.info.recordsCount * sizeofBlockRecord defaultFsInfo
    · rw [if_pos hroom] at hwrite
      cases hwrite
      exact absurd rfl ho
    rw [if_neg hroom] at hwrite
    by_cases hzero : block.info.recordsCount = 0
    · rw [if_pos hzero] at hwrite
      cases hwrite
      refine ⟨.stored, rfl, .inl ⟨rfl, (hheader.map ?_).at _⟩⟩
      simp only [Bool.not_true, Bool.false_eq_true, if_false, if_neg hmixed]
      rw [hzero]
      rfl
    · rw [if_neg hzero, Store.headerWritten_setSlot] at hwrite
      cases hwrite
      refine ⟨.stored, rfl, .inr ⟨.records (rs.take block.info.recordsCount), ⟨?_, ?_⟩, rfl,
        (hheader.bind ?_).at _⟩⟩
      · exact fun r hr => hfit r (List.mem_of_mem_take hr)
      · rw [List.length_take_of_le hcount]
        exact Nat.le_of_not_lt hroom
      · simp only [Bool.not_true, Bool.false_eq_true, if_false, if_neg hmixed]
        exact (puts_writeRecords_take hcount hfit).map rfl

/-- A slot that fits keeps a store that fits. -/
theorem Store.Fits.setSlot (h : st.Fits) {s : Slot} (hheader : s.info.FitsIn defaultFsInfo)
    (hbody : s.body.FitsIn defaultFsInfo) : (st.setSlot s.info.blockId s).Fits where
  superblock := h.superblock
  table := h.table
  inode := h.inode
  slot := by
    intro b s' hs'
    by_cases hb : b = s.info.blockId
    · have hnew : some s = some s' := (if_pos hb).symm.trans hs'
      cases hnew
      exact ⟨hb.symm, hheader, hbody⟩
    · exact h.slot ((if_neg hb).symm.trans hs')

/-- The bytes of the other items stay. -/
theorem Store.encoded_setSlot_ne {b : Nat} {s : Slot} {other : Item} (h : other ≠ .block b) :
    (st.setSlot b s).encoded other = st.encoded other := by
  cases other with
  | superblock => rfl
  | table => rfl
  | inode i => rfl
  | block x =>
    have hx : x ≠ b := fun heq => h (congrArg Item.block heq)
    exact congrArg (Option.map Slot.encode) (if_neg hx)

/-- The bytes of the block are those of the slot. -/
theorem Store.encoded_setSlot_self {b : Nat} {s : Slot} :
    (st.setSlot b s).encoded (.block b) = some s.encode :=
  congrArg (Option.map Slot.encode) (if_pos rfl)

/-- A header is written over the one of a block; the body behind it stays. -/
theorem Represents.headerWritten {bytes : List UInt8} (h : Represents bytes st) {block : Block}
    (hheader : block.info.FitsIn defaultFsInfo) :
    Represents (writeAt 0 bytes (Item.start defaultFsInfo (.block block.info.blockId))
      (encodeBlockInfo block.info)) (st.headerWritten block) := by
  have hsize : (encodeBlockInfo block.info).length ≤
      Item.size defaultFsInfo (.block block.info.blockId) := by
    rw [length_encodeBlockInfo]
    show 7 ≤ 128
    decide
  unfold Store.headerWritten
  rcases hs : st.slots block.info.blockId with _ | s
  · refine h.put (.block block.info.blockId) hheader.blockId_lt hsize
      (h.fits.setSlot (s := ⟨block.info, .unwritten⟩) hheader trivial)
      (fun _ => Store.encoded_setSlot_ne) ?_
    intro held hheld
    rw [Store.encoded_setSlot_self] at hheld
    cases hheld
    refine holdsAt_append.mpr ⟨holdsAt_writeAt 0 bytes _ _, List.nil_prefix⟩
  · obtain ⟨-, -, hbody⟩ := h.fits.slot hs
    refine h.put (.block block.info.blockId) hheader.blockId_lt hsize
      (h.fits.setSlot (s := ⟨block.info, s.body⟩) hheader hbody)
      (fun _ => Store.encoded_setSlot_ne) ?_
    intro held hheld
    rw [Store.encoded_setSlot_self] at hheld
    cases hheld
    -- the old body stands behind a header of the same length
    have hold : HoldsAt bytes (Item.start defaultFsInfo (.block block.info.blockId))
        (encodeBlockInfo s.info ++ s.body.encode) :=
      h.holds (.block block.info.blockId) (congrArg (Option.map Slot.encode) hs)
    obtain ⟨-, hrest⟩ := holdsAt_append.mp hold
    refine holdsAt_append.mpr ⟨holdsAt_writeAt 0 bytes _ _, HoldsAt.writeAt hrest (.inl ?_)⟩
    exact le_of_eq (congrArg (_ + ·) (length_encodeBlockInfo block.info))

/-- **`write_block`** on a file that represents the store. -/
theorem Represents.writeBlock (h : Represents f.bytes st) {block : Block}
    (hblock : block.Storable defaultFsInfo) {o : Outcome Stop WriteBlockResult} {st' : Store}
    (hwrite : st.writeBlock defaultFsInfo block = (o, st')) (ho : o ≠ .halted .outside) :
    ∃ f', (Device.writeBlock defaultFsInfo block).run? fileHandler f = some (o, f') ∧
      Represents f'.bytes st' := by
  obtain ⟨hb, r, rfl, hcases⟩ := writeBlock_cases hblock hwrite ho
  have hheader : block.info.FitsIn defaultFsInfo :=
    ⟨hb, hblock.inodeId_lt, hblock.recordsCount_lt, hblock.dataSize_lt⟩
  rcases hcases with ⟨rfl, hputs⟩ | ⟨body, hbody, rfl, hputs⟩
  · exact ⟨_, hputs f, h.headerWritten hheader⟩
  · refine ⟨_, hputs f, ?_⟩
    have hfits := h.fits.setSlot (s := ⟨block.info, body⟩) hheader hbody
    have hself : (Slot.encode ⟨block.info, body⟩).length ≤
        Item.size defaultFsInfo (.block block.info.blockId) :=
      (hfits.encoded_le Store.encoded_setSlot_self).2
    refine h.put (.block block.info.blockId) hheader.blockId_lt hself hfits
      (fun _ => Store.encoded_setSlot_ne) ?_
    intro held hheld
    rw [Store.encoded_setSlot_self] at hheld
    cases hheld
    exact holdsAt_writeAt 0 f.bytes _ _

end Calls

/-! ### The host, call by call -/

variable {F : HostFiles}

/-- The record machine and the byte machine hold the same image, the same host files and the
    same live objects, and the image is at the paths of `F`. -/
structure SameMachine (F : HostFiles) (m : Machine) (bm : ByteMachine ImageFile) : Prop where
  image : Represents bm.device.bytes m.store
  files : bm.files = m.files
  live : bm.live = m.live
  isImage : m.files.isImage = F.isImage

/-- A codec that reads: the record machine is as it was. -/
theorem SameMachine.read {m : Machine} {bm : ByteMachine ImageFile} {α : Type}
    {p : DeviceProg α} {o : Outcome Stop α} (h : SameMachine F m bm) {f' : ImageFile}
    (hrun : p.run? fileHandler bm.device = some (o, f')) (hbytes : f'.bytes = bm.device.bytes) :
    ∃ bm', onDevice fileHandler p bm = some (o, bm') ∧ SameMachine F m bm' := by
  refine ⟨{ bm with device := f' }, ?_, hbytes ▸ h.image, h.files, h.live, h.isImage⟩
  rw [onDevice, hrun]
  rfl

/-- A codec that writes: the file represents the store that the record host puts. -/
theorem SameMachine.put {m : Machine} {bm : ByteMachine ImageFile} {α : Type}
    {p : DeviceProg α} {o : Outcome Stop α} (h : SameMachine F m bm) {f' : ImageFile} {st : Store}
    (hrun : p.run? fileHandler bm.device = some (o, f')) (himage : Represents f'.bytes st) :
    ∃ bm', onDevice fileHandler p bm = some (o, bm') ∧ SameMachine F (m.put st) bm' := by
  refine ⟨{ bm with device := f' }, ?_, himage, h.files, h.live, h.isImage⟩
  rw [onDevice, hrun]
  rfl

/-- **The byte host refines the record host.**  Of the calls that fit, only one that leaves the
    geometry, reads what was never written or writes over the image as a host file has no
    match. -/
theorem refines_hostHandler :
    Refines (fitting defaultFsInfo F) (· ≠ .outside) hostHandler
      (byteHandler fileHandler ImageFile.access) (SameMachine F) where
  step := by
    intro c m m' bm o hfits h hcall hend
    have hgranted : ∀ {α : Type} {r : Option α} {Q : α → Prop}, (∀ x, r = some x → Q x) →
        ∀ r', (.done r : Outcome Stop (Option α)) = .done r' → ∀ x, r' = some x → Q x := by
      rintro α r Q hr _ ⟨⟩
      exact hr
    cases c with
    | openImage truncate =>
      cases hcall
      refine ⟨_, rfl, ?_, fun _ _ => trivial⟩
      cases truncate with
      | true => exact ⟨represents_blank _, h.files, h.live, h.isImage⟩
      | false => exact ⟨h.image, h.files, h.live, h.isImage⟩
    | acquire x =>
      cases hcall
      exact ⟨_, rfl, ⟨h.image, h.files, congrArg (x :: ·) h.live, h.isImage⟩, fun _ _ => trivial⟩
    | use x =>
      rw [hostHandler] at hcall
      rw [byteHandler, h.live]
      by_cases hx : x ∈ m.live
      · rw [if_pos hx] at hcall ⊢
        cases hcall
        exact ⟨_, rfl, h, fun _ _ => trivial⟩
      · rw [if_neg hx] at hcall ⊢
        cases hcall
        exact ⟨_, rfl, h, fun _ _ => trivial⟩
    | release x =>
      rw [hostHandler] at hcall
      rw [byteHandler, h.live]
      by_cases hx : x ∈ m.live
      · rw [if_pos hx] at hcall ⊢
        cases hcall
        exact ⟨_, rfl, ⟨h.image, h.files, rfl, h.isImage⟩, fun _ _ => trivial⟩
      · rw [if_neg hx] at hcall ⊢
        cases hcall
        exact ⟨_, rfl, h, fun _ _ => trivial⟩
    | readSuperBlock =>
      rw [hostHandler] at hcall
      rcases hsb : m.store.superblock with _ | sb
      · rw [hsb] at hcall
        cases hcall
        exact absurd rfl hend
      · rw [hsb] at hcall
        cases hcall
        obtain ⟨f', hrun, hbytes⟩ := h.image.readSuperBlock hsb
        obtain ⟨bm', hstep, hsame⟩ := h.read hrun hbytes
        refine ⟨bm', hstep, hsame, hgranted ?_⟩
        rintro _ ⟨⟩
        exact h.image.fits.superblock hsb
    | writeSuperBlock sb =>
      have hsb : sb.FitsIn defaultFsInfo := hfits
      rw [hostHandler, if_pos hsb.geometry] at hcall
      cases hcall
      obtain ⟨f', hrun, himage⟩ := h.image.writeSuperBlock hsb
      obtain ⟨bm', hstep, hsame⟩ := h.put hrun himage
      exact ⟨bm', hstep, hsame, fun _ _ => trivial⟩
    | readDescriptorsTable info =>
      obtain rfl : info = defaultFsInfo := hfits
      rw [hostHandler] at hcall
      rcases hdt : m.store.descriptorsTable with _ | dt
      · rw [hdt] at hcall
        cases hcall
        exact absurd rfl hend
      · rw [hdt] at hcall
        dsimp only at hcall
        rw [if_pos rfl] at hcall
        cases hcall
        obtain ⟨f', hrun, hbytes⟩ := h.image.readDescriptorsTable hdt
        obtain ⟨bm', hstep, hsame⟩ := h.read hrun hbytes
        refine ⟨bm', hstep, hsame, hgranted ?_⟩
        rintro _ ⟨⟩
        exact h.image.fits.table hdt
    | writeDescriptorTable info dt =>
      obtain ⟨rfl, hdt⟩ : info = defaultFsInfo ∧ dt.FitsIn defaultFsInfo := hfits
      rw [hostHandler, if_pos rfl] at hcall
      cases hcall
      obtain ⟨f', hrun, himage⟩ := h.image.writeDescriptorTable hdt
      obtain ⟨bm', hstep, hsame⟩ := h.put hrun himage
      exact ⟨bm', hstep, hsame, fun _ _ => trivial⟩
    | readInode info i =>
      obtain rfl : info = defaultFsInfo := hfits
      rw [hostHandler] at hcall
      rcases hi : m.store.inodes i with _ | inode
      · rw [hi] at hcall
        cases hcall
        exact absurd rfl hend
      · rw [hi] at hcall
        dsimp only at hcall
        rw [if_pos rfl] at hcall
        cases hcall
        obtain ⟨f', hrun, hbytes⟩ := h.image.readInode hi
        obtain ⟨bm', hstep, hsame⟩ := h.read hrun hbytes
        refine ⟨bm', hstep, hsame, hgranted ?_⟩
        rintro _ ⟨⟩
        exact (h.image.fits.inode hi).2
    | writeInode info inode =>
      obtain ⟨rfl, hinode⟩ : info = defaultFsInfo ∧ inode.FitsIn defaultFsInfo := hfits
      rw [hostHandler, if_pos ⟨rfl, hinode.id_lt⟩] at hcall
      cases hcall
      obtain ⟨f', hrun, himage⟩ := h.image.writeInode hinode
      obtain ⟨bm', hstep, hsame⟩ := h.put hrun himage
      exact ⟨bm', hstep, hsame, fun _ _ => trivial⟩
    | readBlock info b =>
      obtain rfl : info = defaultFsInfo := hfits
      rw [hostHandler, if_pos rfl] at hcall
      obtain ⟨hread, rfl⟩ := Prod.mk.inj hcall
      obtain ⟨f', hrun, hbytes, hgrant⟩ := h.image.readBlock hread
        (fun ho => by rw [ho] at hend; exact hend rfl)
      obtain ⟨bm', hstep, hsame⟩ := h.read hrun hbytes
      exact ⟨bm', hstep, hsame, hgrant⟩
    | writeBlock info block =>
      obtain ⟨rfl, hblock⟩ : info = defaultFsInfo ∧ block.Storable defaultFsInfo := hfits
      rw [hostHandler, if_pos rfl] at hcall
      obtain ⟨hwrite, rfl⟩ := Prod.mk.inj hcall
      obtain ⟨f', hrun, himage⟩ := h.image.writeBlock hblock (Prod.ext hwrite rfl)
        (fun ho => by rw [ho] at hend; exact hend rfl)
      obtain ⟨bm', hstep, hsame⟩ := h.put hrun himage
      exact ⟨bm', hstep, hsame, fun _ _ => trivial⟩
    | readHostFile path =>
      have hpath : ¬ m.files.isImage path = true := by
        rw [h.isImage]
        exact Bool.eq_false_iff.mp hfits
      cases hcall
      refine ⟨bm, congrArg (fun r => some (Outcome.done r, bm)) ?_, h, fun _ _ => trivial⟩
      rw [h.files]
      exact if_neg hpath
    | writeHostFile path bytes =>
      rw [hostHandler] at hcall
      by_cases hpath : m.files.isImage path = true
      · -- what bytes over the image leave is not a matter of records
        rw [if_pos hpath] at hcall
        cases hcall
        exact absurd rfl hend
      · rw [if_neg hpath] at hcall
        cases hcall
        rw [byteHandler, h.files, if_neg hpath]
        exact ⟨_, rfl, ⟨h.image, rfl, h.live, h.isImage⟩, fun _ _ => trivial⟩

end MiniExt
