import Mathlib
import MiniExt.Properties.FlatImage

namespace MiniExt

open Lib

/-!
# The layout of an arbitrary geometry

Nothing but the magic number of an image is checked, so its geometry is any seven 16-bit
numbers.  The sizes of the table and of the inodes pass through `uint16_t`, the block offsets
through `int`, the room of a directory through `uint8_t`.  This file says for which geometries
none of that loses anything.

* `FsInfo.Accepted`, `FsInfo.HasRoom` — the geometries in question;
* `Item.first`, `Item.length`, `Item.bytes` — the bytes the codecs use for an item;
* `FsInfo.RecordCounts` — the numbers of records a block has room for;
* `LayoutExact` — disjoint items, true sizes, offsets that do not wrap, the largest count;
* `layoutExact_iff` — the layout is exact as long as three sizes are small enough.
-/

/-! ### Geometries -/

/-- A geometry the code accepts: seven 16-bit numbers, the last of them the magic number. -/
structure FsInfo.Accepted (info : FsInfo) : Prop where
  fields : ∀ n ∈ [info.inodesCount, info.blocksCount, info.blockSize, info.blocksCountInInode,
    info.maxPathLen, info.descriptorsCount, info.magic], n < 2 ^ 16
  magic : info.magic = magicNumber

/-- A block has room for its header and two records. -/
def FsInfo.HasRoom (info : FsInfo) : Prop :=
  sizeofBlockInfo + 2 * sizeofBlockRecord info ≤ info.blockSize

instance (info : FsInfo) : Decidable info.HasRoom := inferInstanceAs (Decidable (_ ≤ _))

/-! ### The bytes of an item -/

/-- Where the codecs seek to for an item. -/
def Item.first (info : FsInfo) : Item → Int
  | .superblock => 0
  | .table => sizeofSuperblock info
  | .inode id => calculateOffset info id
  | .block id => blockOffset info id

/-- How many bytes the codecs use for an item: the three arrays of the table are whole,
    whatever `sizeof_descriptors_table` says. -/
def Item.length (info : FsInfo) : Item → Nat
  | .superblock => sizeofSuperblock info
  | .table => info.descriptorsCount * (1 + 2 + 4)
  | .inode _ => sizeofInode info
  | .block _ => info.blockSize

/-- The bytes of an item. -/
def Item.bytes (info : FsInfo) (item : Item) : Set Int :=
  Set.Ico (item.first info) (item.first info + item.length info)

/-- The numbers of records that a `uint8_t` holds and a block has room for. -/
def FsInfo.RecordCounts (info : FsInfo) : Set Nat :=
  { n | n ≤ 255 ∧ sizeofBlockInfo + n * sizeofBlockRecord info ≤ info.blockSize }

/-- **The layout is exact.** -/
structure LayoutExact (info : FsInfo) : Prop where
  disjoint : ∀ a b : Item, a.FitsIn info → b.FitsIn info → a ≠ b →
    Disjoint (a.bytes info) (b.bytes info)
  table : sizeofDescriptorsTable info = info.descriptorsCount * (1 + 2 + 4)
  inodes : sizeofInodesBlock info = info.inodesCount * sizeofInode info
  inodeOffset : ∀ i < info.inodesCount, calculateOffset info i < 2 ^ 64
  blockOffset : ∀ b < info.blocksCount,
    MiniExt.blockOffset info b = blocksStart info + b * info.blockSize
  records : IsGreatest info.RecordCounts (getMaxRecordsCount info)

/-! ### The count of records -/

section Records

variable {info : FsInfo}

/-- What the cast to `uint8_t` leaves of the room of a block. -/
theorem getMaxRecordsCount_eq (hinfo : info.Accepted) (hroom : info.HasRoom) :
    getMaxRecordsCount info = (info.blockSize - sizeofBlockInfo) % 2 ^ 8 / sizeofBlockRecord info ∧
      getMaxRecordsCount info < 2 ^ 7 := by
  have hsize : info.blockSize < 2 ^ 16 := hinfo.fields _ (by simp)
  have hrecord : 2 ≤ sizeofBlockRecord info := Nat.le_add_right 2 _
  have hdata : maxSizeOfData info = info.blockSize - sizeofBlockInfo := by
    unfold FsInfo.HasRoom at hroom
    unfold maxSizeOfData
    omega
  have hsmall : (info.blockSize - sizeofBlockInfo) % 2 ^ 8 / sizeofBlockRecord info < 2 ^ 7 := by
    refine (Nat.div_lt_iff_lt_mul (by omega)).mpr ?_
    have hmul : 2 ^ 7 * 2 ≤ 2 ^ 7 * sizeofBlockRecord info := Nat.mul_le_mul_left _ hrecord
    omega
  have hcount : getMaxRecordsCount info =
      (info.blockSize - sizeofBlockInfo) % 2 ^ 8 / sizeofBlockRecord info := by
    unfold getMaxRecordsCount
    rw [hdata]
    exact Nat.mod_eq_of_lt (hsmall.trans (by decide))
  exact ⟨hcount, hcount ▸ hsmall⟩

/-- The largest count is found exactly if the room of a block passes the cast unchanged. -/
theorem isGreatest_records_iff (hinfo : info.Accepted) (hroom : info.HasRoom) :
    IsGreatest info.RecordCounts (getMaxRecordsCount info) ↔
      info.blockSize - sizeofBlockInfo < 2 ^ 8 := by
  obtain ⟨hcount, hsmall⟩ := getMaxRecordsCount_eq hinfo hroom
  have hpos : 0 < sizeofBlockRecord info := Nat.zero_lt_of_lt (Nat.le_add_right 2 _)
  unfold FsInfo.HasRoom at hroom
  constructor
  · intro hgreatest
    by_contra hlarge
    -- one record more than the code counts still fits
    have hmore : getMaxRecordsCount info + 1 ∈ info.RecordCounts := by
      refine ⟨by omega, ?_⟩
      have hmul := Nat.div_mul_le_self ((info.blockSize - sizeofBlockInfo) % 2 ^ 8)
        (sizeofBlockRecord info)
      rw [← hcount] at hmul
      rw [Nat.add_mul, Nat.one_mul]
      by_cases hrecord : sizeofBlockRecord info ≤ 2 ^ 8
      · omega
      · have hzero : getMaxRecordsCount info = 0 := by
          rw [hcount]
          exact Nat.div_eq_of_lt (by omega)
        rw [hzero]
        omega
    exact absurd (hgreatest.2 hmore) (Nat.not_succ_le_self _)
  · intro hfits
    rw [Nat.mod_eq_of_lt hfits] at hcount
    constructor
    · refine ⟨by omega, ?_⟩
      have hmul := Nat.div_mul_le_self (info.blockSize - sizeofBlockInfo) (sizeofBlockRecord info)
      rw [← hcount] at hmul
      omega
    · rintro n ⟨-, hn⟩
      rw [hcount]
      exact (Nat.le_div_iff_mul_le hpos).mpr (by omega)

end Records

/-! ### Small sizes -/

/-- The three sizes that must be small: the data of a block, the table, the inodes. -/
structure FsInfo.SmallSizes (info : FsInfo) : Prop where
  data : info.blockSize - sizeofBlockInfo < 2 ^ 8
  table : info.descriptorsCount * (1 + 2 + 4) < 2 ^ 16
  inodes : info.inodesCount * sizeofInode info < 2 ^ 16

section Small

variable {info : FsInfo}

/-- Such a geometry is one of those whose image is a store of records. -/
theorem FsInfo.SmallSizes.inRange (h : info.SmallSizes) (hinfo : info.Accepted) :
    info.InRange where
  fields := hinfo.fields
  table := h.table
  inodes := h.inodes
  blocks := by
    intro b hb
    have hinodes : info.inodesCount < 2 ^ 16 := hinfo.fields _ (by simp)
    have hblocks : info.blocksCount < 2 ^ 16 := hinfo.fields _ (by simp)
    have htable : sizeofDescriptorsTable info < 2 ^ 16 := Nat.mod_lt _ (by decide)
    have hregion : sizeofInodesBlock info < 2 ^ 16 := Nat.mod_lt _ (by decide)
    have hdata := h.data
    have hoffset : b * info.blockSize ≤ 2 ^ 16 * 2 ^ 9 :=
      Nat.mul_le_mul (by omega) (by
        unfold sizeofBlockInfo at hdata
        omega)
    unfold blocksStart sizeofSuperblock sizeofFsInfo
    omega

/-- Where sizes are small an item starts where the code puts it. -/
theorem FsInfo.SmallSizes.first_eq (h : info.SmallSizes) (hinfo : info.Accepted) {item : Item}
    (hitem : item.FitsIn info) : item.first info = item.start info := by
  cases item with
  | superblock => rfl
  | table => rfl
  | inode id => rfl
  | block id => exact (h.inRange hinfo).blockOffset_eq hitem

/-- Where sizes are small an item is as long as the code makes it. -/
theorem FsInfo.SmallSizes.length_eq (h : info.SmallSizes) (item : Item) :
    item.length info = item.size info := by
  cases item with
  | superblock => rfl
  | table => exact (Nat.mod_eq_of_lt h.table).symm
  | inode id => rfl
  | block id => rfl

/-- Where sizes are small different items do not overlap. -/
theorem FsInfo.SmallSizes.disjoint (h : info.SmallSizes) (hinfo : info.Accepted) {a b : Item}
    (ha : a.FitsIn info) (hb : b.FitsIn info) (hne : a ≠ b) :
    Disjoint (a.bytes info) (b.bytes info) := by
  unfold Item.bytes
  rw [Set.Ico_disjoint_Ico, h.first_eq hinfo ha, h.first_eq hinfo hb, h.length_eq, h.length_eq]
  rcases Item.disjoint (h.inRange hinfo) ha hb hne with hbefore | hafter
  · have hend : a.start info + a.size info ≤ b.start info := hbefore
    omega
  · have hend : b.start info + b.size info ≤ a.start info := hafter
    omega

end Small

/-! ### The exact condition -/

/-- **The layout of an accepted geometry is exact** exactly if these sizes are small. -/
theorem layoutExact_iff {info : FsInfo} (hinfo : info.Accepted) (hroom : info.HasRoom) :
    LayoutExact info ↔ info.SmallSizes := by
  constructor
  · intro h
    exact {
      data := (isGreatest_records_iff hinfo hroom).mp h.records
      table := h.table ▸ Nat.mod_lt _ (by decide)
      inodes := h.inodes ▸ Nat.mod_lt _ (by decide) }
  · intro h
    exact {
      disjoint := fun a b ha hb hne => h.disjoint hinfo ha hb hne
      table := Nat.mod_eq_of_lt h.table
      inodes := Nat.mod_eq_of_lt h.inodes
      inodeOffset := by
        intro i hi
        have hcount : info.inodesCount < 2 ^ 16 := hinfo.fields _ (by simp)
        have hblocks : info.blocksCount < 2 ^ 16 := hinfo.fields _ (by simp)
        have htable : sizeofDescriptorsTable info < 2 ^ 16 := Nat.mod_lt _ (by decide)
        have hoffset : i * sizeofInode info ≤ info.inodesCount * sizeofInode info :=
          Nat.mul_le_mul_right _ hi.le
        have hregion := h.inodes
        unfold calculateOffset sizeofSuperblock sizeofFsInfo
        omega
      blockOffset := fun b hb => by
        rw [(h.inRange hinfo).blockOffset_eq hb]
        push_cast
        rfl
      records := (isGreatest_records_iff hinfo hroom).mpr h.data }

/-- The layout of the default geometry is exact. -/
theorem layoutExact_default : LayoutExact defaultFsInfo :=
  (layoutExact_iff ⟨by decide, rfl⟩ (by decide)).mpr ⟨by decide, by decide, by decide⟩

/-- The default geometry, but for the number of descriptors: the size of the table wraps. -/
def longTable : FsInfo := { defaultFsInfo with descriptorsCount := 9363 }

/-- Not every accepted geometry is laid out exactly: with 9363 descriptors the first inode
    starts at the sixth byte of the table. -/
theorem not_layoutExact : ¬ ∀ info : FsInfo, info.Accepted → info.HasRoom → LayoutExact info := by
  intro hexact
  have hlayout : LayoutExact longTable := hexact longTable ⟨by decide, rfl⟩ (by decide)
  have hfirst : (Item.inode 0).FitsIn longTable := Nat.zero_lt_succ 127
  have hdisjoint := hlayout.disjoint .table (.inode 0) trivial hfirst Item.noConfusion
  have htable : (275 : Int) ∈ Item.bytes longTable .table := by
    show (270 : Int) ≤ 275 ∧ (275 : Int) < 270 + 65541
    decide
  have hinode : (275 : Int) ∈ Item.bytes longTable (.inode 0) := by
    show (275 : Int) ≤ 275 ∧ (275 : Int) < 275 + 21
    decide
  exact Set.disjoint_left.mp hdisjoint htable hinode

end MiniExt
