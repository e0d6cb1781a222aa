import MiniExt.Disk.Transfers

namespace MiniExt

open Lib

/-!
# Where the codecs come back

A codec that reads comes back exactly if the file has the bytes it asks for, and these depend
on what it read before: the masks on the geometry, the body of a block on its header.

* `ImageFile.left`, `Needs` — how many bytes are left, and how many a program asks for;
* `SuperblockInside`, `TableInside`, `InodeInside`, `BlockInside` — the structure lies in the file;
* `run?_readSuperBlock`, … — the codecs.
-/

/-! ### Bytes asked for -/

/-- How many bytes are left. -/
def ImageFile.left (f : ImageFile) : Nat := (f.bytes.drop f.pos).length

/-- The file after `n` bytes were read. -/
def ImageFile.skip (f : ImageFile) (n : Nat) : ImageFile := { f with pos := f.pos + n }

/-- `lseek`, which refuses a negative offset. -/
def ImageFile.seek (f : ImageFile) (offset : Int) : ImageFile :=
  if offset < 0 then f else { f with pos := offset.toNat }

/-- An offset of the file is found from anywhere. -/
theorem ImageFile.seek_eq {offset : Int} (hoffset : 0 ≤ offset) (bytes : List UInt8) (pos : Nat) :
    (ImageFile.mk bytes pos).seek offset = ⟨bytes, offset.toNat⟩ :=
  if_neg (Int.not_lt.mpr hoffset)

/-- What is skipped is not left. -/
theorem ImageFile.left_skip (f : ImageFile) (n : Nat) : (f.skip n).left = f.left - n := by
  show (f.bytes.drop (f.pos + n)).length = (f.bytes.drop f.pos).length - n
  rw [List.length_drop, List.length_drop]
  omega

/-- The program asks for `n` bytes: it returns a structure where they are left, and does not
    come back where they are not. -/
structure Needs {α : Type} (p : DeviceProg (Option α)) (n : Nat) : Prop where
  long : ∀ f, n ≤ f.left → ∃ a, p.run? fileHandler f = some (.done (some a), f.skip n)
  short : ∀ f, f.left < n → p.run? fileHandler f = none

/-- A value needs no bytes. -/
theorem needs_pure {α : Type} (a : α) : Needs (pure (some a)) 0 where
  long _ _ := ⟨a, rfl⟩
  short _ hshort := absurd hshort (Nat.not_lt_zero _)

/-- A transfer reads what is left. -/
theorem run?_readWhile {f : ImageFile} {n : Nat} (hn : n ≤ f.left) :
    (Device.readWhile n).run? fileHandler f =
      some (.done (some ((f.bytes.drop f.pos).take n)), f.skip n) :=
  (Prog.run?_perform fileHandler (.readWhile n) f).trans (if_pos hn)

/-- A transfer that asks for more does not come back. -/
theorem run?_readWhile_short {f : ImageFile} {n : Nat} (hn : f.left < n) :
    (Device.readWhile n).run? fileHandler f = none :=
  (Prog.run?_perform fileHandler (.readWhile n) f).trans (if_neg (Nat.not_le.mpr hn))

/-- A seek goes to its offset, unless that is negative. -/
theorem run?_lseek (offset : Int) (f : ImageFile) :
    (Device.lseek offset).run? fileHandler f = some (.done (), f.seek offset) :=
  Prog.run?_perform fileHandler (.lseek offset) f

/-- `read_while` needs the bytes it asks for. -/
theorem needs_readWhile (n : Nat) : Needs (Device.readWhile n) n where
  long _ hn := ⟨_, run?_readWhile hn⟩
  short _ hn := run?_readWhile_short hn

/-- One part after the other. -/
theorem Needs.bind {α β : Type} {p : DeviceProg (Option α)} {k : Option α → DeviceProg (Option β)}
    {n m : Nat} (hp : Needs p n) (hk : ∀ a, Needs (k (some a)) m) : Needs (p >>= k) (n + m) where
  long f hlong := by
    obtain ⟨a, ha⟩ := hp.long f (by omega)
    obtain ⟨b, hb⟩ := (hk a).long (f.skip n) (by
      rw [f.left_skip]
      omega)
    refine ⟨b, ?_⟩
    rw [Prog.run?_bind, ha, follow?_done, hb]
    show some (_, { f with pos := f.pos + n + m }) = some (_, { f with pos := f.pos + (n + m) })
    rw [Nat.add_assoc]
  short f hshort := by
    rw [Prog.run?_bind]
    by_cases hn : n ≤ f.left
    · obtain ⟨a, ha⟩ := hp.long f hn
      rw [ha, follow?_done]
      apply (hk a).short
      rw [f.left_skip]
      omega
    · rw [hp.short f (Nat.lt_of_not_le hn), follow?_none]

/-- A last part that reads nothing. -/
theorem Needs.map {α β : Type} {p : DeviceProg (Option α)} {k : Option α → DeviceProg (Option β)}
    {n : Nat} (hp : Needs p n) {g : α → β} (hk : ∀ a, k (some a) = pure (some (g a))) :
    Needs (p >>= k) n := by
  refine hp.bind (m := 0) ?_
  intro a
  rw [hk a]
  exact needs_pure (g a)

/-! ### The parts of the codecs -/

section Parts

variable (info : FsInfo)

/-- `read_block_record` needs the bytes of a record. -/
theorem needs_readBlockRecord : Needs (Device.readBlockRecord info) (sizeofBlockRecord info) := by
  refine (needs_readWhile 2).bind ?_
  intro inodeId
  exact (needs_readWhile info.maxPathLen).map fun _ => rfl

/-- The loop over the records needs the bytes of all of them. -/
theorem needs_readRecords (count : Nat) :
    Needs (Device.readRecords info count) (count * sizeofBlockRecord info) := by
  induction count with
  | zero =>
    rw [Nat.zero_mul]
    exact needs_pure []
  | succ count ih =>
    rw [Nat.add_mul, Nat.one_mul, Nat.add_comm (count * _)]
    refine (needs_readBlockRecord info).bind ?_
    intro r
    exact ih.map fun _ => rfl

end Parts

/-! ### The codecs -/

/-- A codec that seeks first. -/
theorem run?_seek {α : Type} (offset : Int) (p : DeviceProg α) (f : ImageFile) :
    (do Device.lseek offset; p).run? fileHandler f = p.run? fileHandler (f.seek offset) := by
  rw [Prog.run?_bind, run?_lseek, follow?_done]

/-- The file has the `n` bytes at an offset. -/
def ImageFile.Inside (f : ImageFile) (offset n : Nat) : Prop := n ≤ f.bytes.length - offset

instance (f : ImageFile) (offset n : Nat) : Decidable (f.Inside offset n) :=
  inferInstanceAs (Decidable (_ ≤ _))

/-- The geometry, and the masks of the lengths it gives, lie in the file. -/
def SuperblockInside (f : ImageFile) : Prop :=
  f.Inside 0 sizeofFsInfo ∧ f.Inside 0 (sizeofSuperblock (decodeFsInfo (f.bytes.take sizeofFsInfo)))

/-- The three arrays of the table lie in the file. -/
def TableInside (info : FsInfo) (f : ImageFile) : Prop :=
  f.Inside (sizeofSuperblock info) (info.descriptorsCount * (1 + 2 + 4))

/-- The inode lies in the file. -/
def InodeInside (info : FsInfo) (inodeId : Nat) (f : ImageFile) : Prop :=
  f.Inside (calculateOffset info inodeId) (sizeofInode info)

/-- The header of a block that stands at an offset. -/
def ImageFile.headerAt (f : ImageFile) (offset : Nat) : BlockInfo :=
  decodeBlockInfo ((f.bytes.drop offset).take sizeofBlockInfo)

/-- How many bytes `read_block` asks for after a header. -/
def BlockInfo.bodySize (info : FsInfo) (header : BlockInfo) : Nat :=
  if header.recordsCount ≠ 0 ∧ header.dataSize ≠ 0 then 0
  else if header.recordsCount ≠ 0 then header.recordsCount * sizeofBlockRecord info
  else header.dataSize

/-- The data a header counts fits the buffer of a block, if it is read at all. -/
def BlockInfo.DataFits (info : FsInfo) (header : BlockInfo) : Prop :=
  header.recordsCount = 0 → header.dataSize ≤ maxSizeOfData info

/-- The header of a block, and the body it counts, lie in the file. -/
def BlockInside (info : FsInfo) (blockId : Nat) (f : ImageFile) : Prop :=
  let start := (f.seek (blockOffset info blockId)).pos
  f.Inside start sizeofBlockInfo ∧
    f.Inside start (sizeofBlockInfo + (f.headerAt start).bodySize info)

/-- `read_block` comes to a result: the block lies in the file, and its data fits the buffer it is
    read into. -/
def BlockAnswered (info : FsInfo) (blockId : Nat) (f : ImageFile) : Prop :=
  BlockInside info blockId f ∧
    (f.headerAt (f.seek (blockOffset info blockId)).pos).DataFits info

/-- The header counts both records and data. -/
def BlockInfo.Mixed (header : BlockInfo) : Prop := header.recordsCount ≠ 0 ∧ header.dataSize ≠ 0

instance (header : BlockInfo) : Decidable header.Mixed := inferInstanceAs (Decidable (_ ∧ _))

/-- `read_block` returns: it comes to a result, and does not crash on its header. -/
def BlockReadable (info : FsInfo) (blockId : Nat) (f : ImageFile) : Prop :=
  BlockAnswered info blockId f ∧
    ¬ (f.headerAt (f.seek (blockOffset info blockId)).pos).Mixed

/-- Where the bytes are left the program comes back with a structure. -/
theorem Needs.comesBack {α : Type} {p : DeviceProg (Option α)} {n : Nat} (hp : Needs p n)
    {f : ImageFile} (hlong : n ≤ f.left) :
    ∃ a f', p.run? fileHandler f = some (.done (some a), f') := by
  obtain ⟨a, hrun⟩ := hp.long f hlong
  exact ⟨a, _, hrun⟩

/-- It returns exactly there. -/
theorem Needs.returns_iff {α : Type} {p : DeviceProg (Option α)} {n : Nat} (hp : Needs p n)
    (f : ImageFile) : p.Returns fileHandler f ↔ n ≤ f.left := by
  constructor
  · rintro ⟨a, f', hrun⟩
    by_contra hshort
    rw [hp.short f (Nat.lt_of_not_le hshort)] at hrun
    cases hrun
  · intro hlong
    obtain ⟨a, f', hrun⟩ := hp.comesBack hlong
    exact ⟨some a, f', hrun⟩

/-- A last part that only looks at what was read. -/
theorem Needs.returns_bind_iff {α β : Type} {p : DeviceProg (Option α)} {n : Nat} (hp : Needs p n)
    {k : Option α → DeviceProg β} {g : α → β} (hk : ∀ a, k (some a) = pure (g a))
    (f : ImageFile) : (p >>= k).Returns fileHandler f ↔ n ≤ f.left := by
  unfold Prog.Returns
  rw [Prog.run?_bind]
  by_cases hlong : n ≤ f.left
  · obtain ⟨a, hrun⟩ := hp.long f hlong
    rw [hrun, follow?_done, hk]
    exact iff_of_true ⟨g a, _, rfl⟩ hlong
  · rw [hp.short f (Nat.lt_of_not_le hlong), follow?_none]
    refine iff_of_false ?_ hlong
    rintro ⟨b, f', hrun⟩
    cases hrun

/-- What follows a seek starts at its offset. -/
theorem returns_seek {α : Type} (offset : Int) (p : DeviceProg α) (f : ImageFile) :
    (do Device.lseek offset; p).Returns fileHandler f ↔
      p.Returns fileHandler (f.seek offset) := by
  unfold Prog.Returns
  rw [run?_seek]

/-- Behind an offset the rest of the file is left. -/
theorem left_seek (f : ImageFile) (offset : Nat) :
    (f.seek offset).left = f.bytes.length - offset := by
  have hseek : f.seek offset = ⟨f.bytes, offset⟩ := if_neg (Int.not_lt.mpr (Int.natCast_nonneg _))
  rw [hseek]
  exact List.length_drop

/-- A `read_while` and what follows it. -/
theorem returns_readWhile_bind {α : Type} {n : Nat} {k : Option (List UInt8) → DeviceProg α}
    (f : ImageFile) : (Device.readWhile n >>= k).Returns fileHandler f ↔
      n ≤ f.left ∧ (k (some ((f.bytes.drop f.pos).take n))).Returns fileHandler (f.skip n) := by
  unfold Prog.Returns
  rw [Prog.run?_bind]
  by_cases hn : n ≤ f.left
  · rw [run?_readWhile hn, follow?_done]
    exact (and_iff_right hn).symm
  · rw [run?_readWhile_short (Nat.lt_of_not_le hn), follow?_none]
    constructor
    · rintro ⟨a, f', hrun⟩
      cases hrun
    · rintro ⟨hle, -⟩
      exact absurd hle hn

/-- A value returns. -/
theorem returns_pure {α : Type} (a : α) (f : ImageFile) :
    (pure a : DeviceProg α).Returns fileHandler f ↔ True := by
  constructor
  · intro _
    exact trivial
  · intro _
    exact ⟨a, f, rfl⟩

/-- **`read_super_block`** returns when the superblock lies in the file. -/
theorem returns_readSuperBlock (f : ImageFile) :
    Device.readSuperBlock.Returns fileHandler f ↔ SuperblockInside f := by
  simp only [Device.readSuperBlock, returns_seek, returns_readWhile_bind, returns_pure,
    ImageFile.left_skip, and_true]
  have hseek : f.seek 0 = ⟨f.bytes, 0⟩ := rfl
  rw [hseek]
  show sizeofFsInfo ≤ f.bytes.length ∧
    (decodeFsInfo (f.bytes.take sizeofFsInfo)).inodesCount ≤ f.bytes.length - sizeofFsInfo ∧
    (decodeFsInfo (f.bytes.take sizeofFsInfo)).blocksCount ≤ f.bytes.length - sizeofFsInfo -
      (decodeFsInfo (f.bytes.take sizeofFsInfo)).inodesCount ↔
    sizeofFsInfo ≤ f.bytes.length - 0 ∧
    sizeofSuperblock (decodeFsInfo (f.bytes.take sizeofFsInfo)) ≤ f.bytes.length - 0
  unfold sizeofSuperblock
  omega

/-- Where `read_super_block` returns, it returns a superblock. -/
theorem run?_readSuperBlock {f : ImageFile} (h : SuperblockInside f) :
    ∃ sb f', Device.readSuperBlock.run? fileHandler f = some (.done (some sb), f') := by
  have hhead : sizeofFsInfo ≤ (f.seek 0).left := h.1
  have hmasks : sizeofSuperblock (decodeFsInfo (f.bytes.take sizeofFsInfo)) ≤ f.bytes.length := h.2
  unfold Device.readSuperBlock
  rw [run?_seek, Prog.run?_bind, run?_readWhile hhead, follow?_done]
  have hbytes : ((f.seek 0).bytes.drop (f.seek 0).pos).take sizeofFsInfo =
      f.bytes.take sizeofFsInfo := rfl
  simp only [hbytes]
  generalize decodeFsInfo (f.bytes.take sizeofFsInfo) = info at hmasks ⊢
  have hleft : (f.seek 0).left = f.bytes.length := rfl
  -- the two masks follow the geometry
  apply Needs.comesBack (n := info.inodesCount + info.blocksCount)
  · refine (needs_readWhile info.inodesCount).bind ?_
    intro inodes
    exact (needs_readWhile info.blocksCount).map fun _ => rfl
  · rw [ImageFile.left_skip, hleft]
    unfold sizeofSuperblock at hmasks
    omega

/-- **`read_descriptors_table`** returns when the table lies in the file. -/
theorem returns_readDescriptorsTable (info : FsInfo) (f : ImageFile) :
    (Device.readDescriptorsTable info).Returns fileHandler f ↔ TableInside info f := by
  simp only [Device.readDescriptorsTable, returns_seek, returns_readWhile_bind, returns_pure,
    ImageFile.left_skip, left_seek, and_true]
  unfold TableInside ImageFile.Inside
  omega

/-- **`read_inode`** returns when the inode lies in the file. -/
theorem returns_readInode (info : FsInfo) (inodeId : Nat) (f : ImageFile) :
    (Device.readInode info inodeId).Returns fileHandler f ↔ InodeInside info inodeId f := by
  simp only [Device.readInode, returns_seek, returns_readWhile_bind, returns_pure,
    ImageFile.left_skip, left_seek, and_true]
  unfold InodeInside ImageFile.Inside sizeofInode
  omega

/-- **`read_block`** comes to a result when the block lies in the file and its data fits. -/
theorem returns_readBlock (info : FsInfo) (blockId : Nat) (f : ImageFile) :
    (Device.readBlock info blockId).Returns fileHandler f ↔ BlockAnswered info blockId f := by
  unfold BlockAnswered BlockInside
  simp only [Device.readBlock, returns_seek]
  generalize hstart : f.seek (blockOffset info blockId) = g
  have hbytes : g.bytes = f.bytes := by
    rw [← hstart]
    unfold ImageFile.seek
    split <;> rfl
  rw [returns_readWhile_bind]
  have hheader : decodeBlockInfo ((g.bytes.drop g.pos).take sizeofBlockInfo) =
      f.headerAt g.pos := by
    rw [hbytes]
    rfl
  simp only [hheader]
  generalize f.headerAt g.pos = header
  have hleft : g.left = f.bytes.length - g.pos := by
    rw [← hbytes]
    exact List.length_drop
  show _ ↔ ((sizeofBlockInfo ≤ f.bytes.length - g.pos ∧
      sizeofBlockInfo + header.bodySize info ≤ f.bytes.length - g.pos) ∧ header.DataFits info)
  rw [← hleft]
  unfold BlockInfo.bodySize BlockInfo.DataFits
  -- the header decides which of the two bodies is read
  by_cases hrecords : header.recordsCount = 0
  · by_cases hdata : header.dataSize = 0
    · -- an empty block
      simp only [hrecords, hdata, ne_eq, not_true_eq_false, and_self, if_false, returns_pure,
        Nat.add_zero, Nat.zero_le, and_true, imp_self]
    · simp only [hrecords, ne_eq, not_true_eq_false, false_and, if_false, hdata, not_false_eq_true,
        if_true, true_implies]
      by_cases hfits : header.dataSize ≤ maxSizeOfData info
      · rw [if_neg (Nat.not_lt.mpr hfits), returns_readWhile_bind, returns_pure,
          ImageFile.left_skip, and_true]
        omega
      · -- data that does not fit is a memory error
        rw [if_pos (Nat.lt_of_not_le hfits)]
        constructor
        · rintro ⟨-, a, f', hrun⟩
          cases hrun
        · rintro ⟨-, hle⟩
          exact absurd hle hfits
  · by_cases hdata : header.dataSize = 0
    · simp only [hrecords, hdata, ne_eq, not_true_eq_false, not_false_eq_true, and_false, if_false,
        if_true, false_implies, and_true]
      have hneeds : ∀ k : Option (List BlockRecord) → DeviceProg ReadBlockResult,
          (∀ rs, k (some rs) = pure (.read ⟨header, some rs, Store.dataBuffer info []⟩)) →
          ((Device.readRecords info header.recordsCount >>= k).Returns fileHandler
            (g.skip sizeofBlockInfo) ↔
            header.recordsCount * sizeofBlockRecord info ≤ g.left - sizeofBlockInfo) := by
        intro k hk
        rw [(needs_readRecords info header.recordsCount).returns_bind_iff hk, ImageFile.left_skip]
      rw [hneeds _ fun _ => rfl]
      omega
    · -- both records and data: nothing is read after the header
      simp only [hrecords, hdata, ne_eq, not_false_eq_true, and_self, if_true, returns_pure,
        false_implies, and_true, Nat.add_zero]

/-- **What a `read_block` that comes to a result did**: it met a header that counts both records and
    data, or made a block, and any records of that are read from the image. -/
theorem run?_readBlock_cases {info : FsInfo} {blockId : Nat} {f f' : ImageFile}
    {r : ReadBlockResult} {header : BlockInfo}
    (hheader : f.headerAt (f.seek (blockOffset info blockId)).pos = header)
    (hrun : (Device.readBlock info blockId).run? fileHandler f = some (.done r, f')) :
    header.Mixed ∧ r = .mixed ∨
      ¬ header.Mixed ∧ ∃ block, r = .read block ∧
        ∀ rs, block.records = some rs → ∃ g g',
          (Device.readRecords info header.recordsCount).run? fileHandler g =
            some (.done (some rs), g') := by
  unfold Device.readBlock at hrun
  rw [run?_seek] at hrun
  generalize hseek : f.seek (blockOffset info blockId) = g at hrun hheader
  have hbytes : g.bytes = f.bytes := by
    rw [← hseek]
    unfold ImageFile.seek
    split <;> rfl
  by_cases hhead : sizeofBlockInfo ≤ g.left
  case neg =>
    -- a header that is cut off: the read does not come back
    rw [Prog.run?_bind, run?_readWhile_short (Nat.lt_of_not_le hhead), follow?_none] at hrun
    cases hrun
  rw [Prog.run?_bind, run?_readWhile hhead, follow?_done] at hrun
  have hdecoded : decodeBlockInfo ((g.bytes.drop g.pos).take sizeofBlockInfo) = header := by
    rw [hbytes, ← hheader]
    rfl
  simp only [hdecoded] at hrun
  clear hdecoded hheader
  by_cases hmixed : header.recordsCount ≠ 0 ∧ header.dataSize ≠ 0
  · rw [if_pos hmixed] at hrun
    cases hrun
    exact Or.inl ⟨hmixed, rfl⟩
  rw [if_neg hmixed] at hrun
  refine Or.inr ⟨hmixed, ?_⟩
  by_cases hrecords : header.recordsCount ≠ 0
  · rw [if_pos hrecords, Prog.run?_bind] at hrun
    rcases hread : (Device.readRecords info header.recordsCount).run? fileHandler
      (g.skip sizeofBlockInfo) with _ | ⟨rs | e, f₁⟩
    · rw [hread, follow?_none] at hrun
      cases hrun
    · -- the records are all there, or the read does not come back
      have hneeds := needs_readRecords info header.recordsCount
      have hlong := (hneeds.returns_iff _).mp ⟨rs, f₁, hread⟩
      obtain ⟨rs', hread'⟩ := hneeds.long _ hlong
      rw [hread', follow?_done] at hrun
      cases hrun
      refine ⟨_, rfl, fun rs heq => ?_⟩
      cases heq
      exact ⟨_, _, hread'⟩
    · rw [hread, follow?_halted] at hrun
      cases hrun
  rw [if_neg hrecords] at hrun
  -- a block without records has none, whatever data it has
  by_cases hdata : header.dataSize ≠ 0
  · rw [if_pos hdata] at hrun
    by_cases hlarge : maxSizeOfData info < header.dataSize
    · rw [if_pos hlarge] at hrun
      cases hrun
    rw [if_neg hlarge, Prog.run?_bind] at hrun
    by_cases hlong : header.dataSize ≤ (g.skip sizeofBlockInfo).left
    · rw [run?_readWhile hlong, follow?_done] at hrun
      cases hrun
      exact ⟨_, rfl, fun _ heq => nomatch heq⟩
    · rw [run?_readWhile_short (Nat.lt_of_not_le hlong), follow?_none] at hrun
      cases hrun
  · rw [if_neg hdata] at hrun
    cases hrun
    exact ⟨_, rfl, fun _ heq => nomatch heq⟩

/-- **Where `read_block` returns** to its caller. -/
theorem returns_readBlock_value (info : FsInfo) (blockId : Nat) (f : ImageFile) :
    (Device.readBlock info blockId >>= ReadBlockResult.value).Returns fileHandler f ↔
      BlockReadable info blockId f := by
  unfold Prog.Returns BlockReadable
  rw [Prog.run?_bind]
  constructor
  · rintro ⟨a, f', hrun⟩
    rcases hread : (Device.readBlock info blockId).run? fileHandler f with _ | ⟨r | e, f₁⟩
    · rw [hread, follow?_none] at hrun
      cases hrun
    · refine ⟨(returns_readBlock info blockId f).mp ⟨r, f₁, hread⟩, ?_⟩
      rcases run?_readBlock_cases rfl hread with ⟨-, rfl⟩ | ⟨hmixed, -⟩
      · rw [hread, follow?_done] at hrun
        cases hrun
      · exact hmixed
    · rw [hread, follow?_halted] at hrun
      cases hrun
  · rintro ⟨hanswered, hmixed⟩
    obtain ⟨r, f₁, hread⟩ := (returns_readBlock info blockId f).mpr hanswered
    rcases run?_readBlock_cases rfl hread with ⟨hmixed', -⟩ | ⟨-, block, rfl, -⟩
    · exact absurd hmixed' hmixed
    · exact ⟨some block, f₁, by rw [hread, follow?_done]; rfl⟩

end MiniExt
