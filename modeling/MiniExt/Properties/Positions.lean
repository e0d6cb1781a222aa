import MiniExt.Disk.Runs
import MiniExt.Interface.ReadFile
import MiniExt.Properties.Geometry

namespace MiniExt

open Lib

/-!
# Positions and blocks

`write_to_file` and `read_file` find the byte of a position through two numbers: an entry of the
inode's block list and an offset in the block.  The position passes through `uint16_t` on the
way to the entry, and a block that is appended is always the next one.  Over any accepted
geometry this file says which positions are found where they belong.

* `writeEntry`, `readEntry` — the entry that a turn of either loop uses;
* `FileOn`, `WriteTurn`, `ReadTurn` — a file, and a turn that writes to it or reads from it;
* `WriteTurn.Exact`, `ReadTurn.Exact` — each byte of the turn is put at, or taken from, the entry
  and the offset of its position;
* `positions_exact_iff` — the turns for which that is so.
-/

/-! ### Entries -/

/-- The entry that a position selects. -/
def readEntry (info : FsInfo) (pos : Nat) : Nat := pos % 2 ^ 16 / getMaxDataInBlock info % 2 ^ 16

/-- The entry that is written: one that the file has, or the next one. -/
def writeEntry (info : FsInfo) (blocksCount pos : Nat) : Nat :=
  if readEntry info pos < blocksCount then readEntry info pos else blocksCount

section Entries

variable {info : FsInfo}

/-- The data of a block: what the header leaves of it. -/
theorem maxData_eq (hinfo : info.Accepted) (hroom : sizeofBlockInfo < info.blockSize) :
    getMaxDataInBlock info = info.blockSize - sizeofBlockInfo ∧
      maxSizeOfData info = info.blockSize - sizeofBlockInfo ∧
      0 < getMaxDataInBlock info ∧ getMaxDataInBlock info < 2 ^ 16 := by
  have hsize : info.blockSize < 2 ^ 16 := hinfo.fields _ (by simp)
  have hmax : maxSizeOfData info = info.blockSize - sizeofBlockInfo := by
    unfold maxSizeOfData
    omega
  have hdata : getMaxDataInBlock info = info.blockSize - sizeofBlockInfo := by
    unfold getMaxDataInBlock
    omega
  exact ⟨hdata, hmax, by omega, by omega⟩

/-- The entry a read looks at is at most the block of the position. -/
theorem readEntry_le (info : FsInfo) (pos : Nat) :
    readEntry info pos ≤ pos / getMaxDataInBlock info :=
  (Nat.mod_le _ _).trans (Nat.div_le_div_right (Nat.mod_le _ _))

/-- A position selects its own entry exactly below `2 ^ 16`. -/
theorem readEntry_eq_iff (hinfo : info.Accepted) (hroom : sizeofBlockInfo < info.blockSize)
    (pos : Nat) : readEntry info pos = pos / getMaxDataInBlock info ↔ pos < 2 ^ 16 := by
  obtain ⟨-, -, hpos, hlt⟩ := maxData_eq hinfo hroom
  unfold readEntry
  generalize getMaxDataInBlock info = n at hpos hlt
  constructor
  · intro heq
    by_contra hge
    -- what the cast leaves lies in an earlier block
    have hle : pos % 2 ^ 16 + n ≤ pos := by omega
    have hdiv : pos % 2 ^ 16 / n + 1 ≤ pos / n := by
      rw [← Nat.add_div_right _ hpos]
      exact Nat.div_le_div_right hle
    have hmod : pos % 2 ^ 16 / n % 2 ^ 16 ≤ pos % 2 ^ 16 / n := Nat.mod_le _ _
    omega
  · intro hsmall
    rw [Nat.mod_eq_of_lt hsmall]
    exact Nat.mod_eq_of_lt ((Nat.div_le_self _ _).trans_lt hsmall)

/-- The entry that is written is the right one if the position is small and the file has no gap
    before it. -/
theorem writeEntry_eq_iff (hinfo : info.Accepted) (hroom : sizeofBlockInfo < info.blockSize)
    (blocksCount pos : Nat) : writeEntry info blocksCount pos = pos / getMaxDataInBlock info ↔
      pos < 2 ^ 16 ∧ pos / getMaxDataInBlock info ≤ blocksCount := by
  rw [← readEntry_eq_iff hinfo hroom pos]
  have hle := readEntry_le info pos
  unfold writeEntry
  split
  · omega
  · omega

end Entries

/-! ### Turns -/

/-- The calls of a turn that name a block. -/
structure BlockCalls where
  reads : List Nat
  writes : List Block
  deriving DecidableEq, Repr

/-- The host of a turn: every block can be read, and no write fails. -/
def blockHost (blocks : Nat → Block) : Handler host BlockCalls Stop
  | .acquire _, t => (.done (), t)
  | .use _, t => (.done (), t)
  | .release _, t => (.done (), t)
  | .readBlock _ b, t => (.done (.read (blocks b)), { t with reads := t.reads ++ [b] })
  | .writeBlock _ block, t => (.done .stored, { t with writes := t.writes ++ [block] })
  | .writeInode _ _, t => (.done true, t)
  | _, t => (.halted .outside, t)

/-- A file of a geometry: the entries that it has are different blocks, and each block has its
    own number in its header. -/
structure FileOn (info : FsInfo) (blocks : Nat → Block) (inode : Inode) : Prop where
  length : inode.blockIds.length = info.blocksCountInInode
  count_le : inode.blocksCount ≤ info.blocksCountInInode
  distinct : ∀ i < inode.blocksCount, ∀ j < inode.blocksCount,
    inode.blockIds[i]? = inode.blockIds[j]? → i = j
  header : ∀ b, (blocks b).info.blockId = b
  buffer : ∀ b, (blocks b).data.length = maxSizeOfData info

/-- A turn of the loop of `write_to_file` that writes: bytes are left, and a block is free where
    one has to be appended. -/
structure WriteTurn (info : FsInfo) where
  blocks : Nat → Block
  fileDescriptor : Nat
  inodeId : Nat
  size : Nat
  state : WriteState
  geometry : state.sb.FitsIn info
  file : FileOn info blocks state.inode
  reserved : ∀ i < state.inode.blocksCount, ∀ b, state.inode.blockIds[i]? = some b →
    state.sb.reservedBlocksMask[b]? = some true
  position : state.fdPosition < getMaxDataSizeOfAllBlocks info
  more : state.totalWritten ≠ size
  need : 0 < state.needToWriteSize
  source : state.needToWriteSize ≤ state.data.length
  space : state.inode.blocksCount ≤ readEntry info state.fdPosition →
    false ∈ state.sb.reservedBlocksMask

/-- How many bytes the turn writes: as many as are left, or as the block has room for. -/
def WriteTurn.count {info : FsInfo} (t : WriteTurn info) : Nat :=
  min t.state.needToWriteSize
    (getMaxDataInBlock info - t.state.fdPosition % getMaxDataInBlock info)

/-- Each byte of the turn is put at the entry and the offset of its position, in the file that
    the turn leaves. -/
def WriteTurn.Exact {info : FsInfo} (t : WriteTurn info) : Prop :=
  ∃ s reads block, (writeLoop t.fileDescriptor t.inodeId t.size 1 t.state).run (blockHost t.blocks)
      ⟨[], []⟩ = (.done s, ⟨reads, [block]⟩) ∧
    ∀ j < t.count,
      (t.state.fdPosition + j) / getMaxDataInBlock info < s.inode.blocksCount ∧
      s.inode.blockIds[(t.state.fdPosition + j) / getMaxDataInBlock info]? =
        some block.info.blockId ∧
      block.data[(t.state.fdPosition + j) % getMaxDataInBlock info]? = t.state.data[j]?

/-- A turn of the loop of `read_file`, at a position where the file has a byte. -/
structure ReadTurn (info : FsInfo) where
  blocks : Nat → Block
  sb : Superblock
  inode : Inode
  size : Nat
  capacity : Nat
  state : ReadState
  geometry : sb.fsInfo = info
  file : FileOn info blocks inode
  position : state.fdPosition < getMaxDataSizeOfAllBlocks info
  inside : state.fdPosition / getMaxDataInBlock info < inode.blocksCount
  filled : ∀ b, inode.blockIds[state.fdPosition / getMaxDataInBlock info]? = some b →
    state.fdPosition % getMaxDataInBlock info < (blocks b).info.dataSize ∧
      (blocks b).info.dataSize ≤ maxSizeOfData info
  more : state.dest.length ≠ size
  need : 0 < state.needToRead
  room : state.dest.length + state.needToRead ≤ capacity

/-- The turn copies bytes, and each is taken from the entry and the offset of its position. -/
def ReadTurn.Exact {info : FsInfo} (t : ReadTurn info) : Prop :=
  ∃ s b copied, (readLoop t.sb t.inode t.size t.capacity 1 t.state).run (blockHost t.blocks)
      ⟨[], []⟩ = (.done s, ⟨[b], []⟩) ∧
    s.dest = t.state.dest ++ copied ∧ copied ≠ [] ∧
    ∀ j < copied.length,
      t.inode.blockIds[(t.state.fdPosition + j) / getMaxDataInBlock info]? = some b ∧
      copied[j]? = (t.blocks b).data[(t.state.fdPosition + j) % getMaxDataInBlock info]?

/-! ### Single calls -/

section Calls

variable {blocks : Nat → Block} {reads : List Nat} {writes : List Block}

/-- A call is what this host makes of it. -/
theorem run_blockHost (c : HostCall) (t : BlockCalls) :
    (ask c).run (blockHost blocks) t = blockHost blocks c t :=
  Prog.run_perform (blockHost blocks) c t

/-- A use changes nothing. -/
theorem turn_use (h : Handle) (t : BlockCalls) :
    (use h).run (blockHost blocks) t = (.done (), t) := run_blockHost (.use h) t

/-- An acquisition changes nothing. -/
theorem turn_acquire (h : Handle) (t : BlockCalls) :
    (acquire h).run (blockHost blocks) t = (.done (), t) := run_blockHost (.acquire h) t

/-- A release changes nothing. -/
theorem turn_release (h : Handle) (t : BlockCalls) :
    (release h).run (blockHost blocks) t = (.done (), t) := run_blockHost (.release h) t

/-- A read of a block is noted. -/
theorem turn_readBlock (h : Handle) (sb : Superblock) (b : Nat) :
    (readBlock h sb b).run (blockHost blocks) ⟨reads, writes⟩ =
      (.done (some (blocks b)), ⟨reads ++ [b], writes⟩) := by
  have hask : (askReadBlock sb.fsInfo b).run (blockHost blocks) ⟨reads, writes⟩ =
      (.done (.read (blocks b)), ⟨reads ++ [b], writes⟩) := run_blockHost _ _
  unfold readBlock
  simp only [Prog.run_bind, turn_use, hask, follow_done, turn_acquire, Prog.run_pure]

/-- A write of a block is noted. -/
theorem turn_writeBlock (h : Handle) (sb : Superblock) (block : Block) :
    (writeBlock h sb block).run (blockHost blocks) ⟨reads, writes⟩ =
      (.done true, ⟨reads, writes ++ [block]⟩) := by
  have hask : (askWriteBlock sb.fsInfo block).run (blockHost blocks) ⟨reads, writes⟩ =
      (.done .stored, ⟨reads, writes ++ [block]⟩) := run_blockHost _ _
  unfold writeBlock
  simp only [Prog.run_bind, turn_use, hask, follow_done, Prog.run_pure]

/-- A write of an inode changes nothing. -/
theorem turn_writeInode (h : Handle) (sb : Superblock) (inode : Inode) (t : BlockCalls) :
    (writeInode h sb inode).run (blockHost blocks) t = (.done true, t) := by
  have hask : (askWriteInode sb.fsInfo inode).run (blockHost blocks) t = (.done true, t) :=
    run_blockHost _ _
  unfold writeInode
  simp only [Prog.run_bind, turn_use, hask, follow_done]

end Calls

/-! ### A turn that writes -/

/-- What was copied into a buffer. -/
theorem getElem?_memcpy {buffer bytes : List UInt8} {o j : Nat} (ho : o ≤ buffer.length)
    (hj : j < bytes.length) : (memcpy buffer o bytes)[o + j]? = bytes[j]? := by
  have hlen : (buffer.take o).length = o := List.length_take_of_le ho
  unfold memcpy
  rw [List.append_assoc, List.getElem?_append_right (by omega), hlen, Nat.add_sub_cancel_left,
    List.getElem?_append_left hj]

section Writing

variable {blocks : Nat → Block} {reads : List Nat}

/-- **The second half of a turn**: the block is written, with the bytes at the offset of the
    position. -/
theorem turn_fillBlock (blocks : Nat → Block) (reads : List Nat) (s : WriteState) (block : Block)
    {n : Nat}
    (hn : n = min s.needToWriteSize (getMaxDataInBlock s.sb.fsInfo -
      s.fdPosition % getMaxDataInBlock s.sb.fsInfo))
    (hmax : 0 < getMaxDataInBlock s.sb.fsInfo)
    (hbuffer : getMaxDataInBlock s.sb.fsInfo ≤ block.data.length)
    (hsource : s.needToWriteSize ≤ s.data.length) :
    ∃ s' block', (fillBlock s block).run (blockHost blocks) ⟨reads, []⟩ =
        (.done s', ⟨reads, [block']⟩) ∧ s'.inode = s.inode ∧
      block'.info.blockId = block.info.blockId ∧
      ∀ j < n, block'.data[s.fdPosition % getMaxDataInBlock s.sb.fsInfo + j]? = s.data[j]? := by
  have hoffset : s.fdPosition % getMaxDataInBlock s.sb.fsInfo < getMaxDataInBlock s.sb.fsInfo :=
    Nat.mod_lt _ hmax
  unfold fillBlock
  dsimp only
  generalize hmaxData : getMaxDataInBlock s.sb.fsInfo = maxData at hn hmax hbuffer hoffset ⊢
  generalize s.fdPosition % maxData = o at hn hoffset ⊢
  have hsize :
      (if s.needToWriteSize < maxData - o then s.needToWriteSize else maxData - o) = n := by
    split <;> omega
  have hfits : ¬ (block.data.length < o + n ∨ s.data.length < n) := by omega
  have hlen : (s.data.take n).length = n := List.length_take_of_le (by omega)
  simp only [hsize, if_neg hfits, Prog.run_bind, turn_use, follow_done, turn_writeBlock,
    Bool.not_true, Bool.false_eq_true, List.nil_append]
  refine ⟨_, _, rfl, rfl, rfl, ?_⟩
  intro j hj
  show (memcpy block.data o (s.data.take n))[o + j]? = _
  rw [getElem?_memcpy (by omega) (by omega), List.getElem?_take_of_lt hj]

/-- A turn on a block that the file has. -/
theorem turn_writeLoop_patch {fd i size k maxData b : Nat} {s s' : WriteState} {t : BlockCalls}
    (hmore : ¬ s.totalWritten = size) (hmaxData : getMaxDataInBlock s.sb.fsInfo = maxData)
    (hzero : ¬ maxData = 0) (hk : s.fdPosition % 2 ^ 16 / maxData % 2 ^ 16 = k)
    (hentry : k < s.inode.blocksCount) (hb : s.inode.blockIds[k]? = some b)
    (hfill : (fillBlock s (blocks b)).run (blockHost blocks) ⟨[b], []⟩ = (.done s', t)) :
    (writeLoop fd i size 1 s).run (blockHost blocks) ⟨[], []⟩ = (.done s', t) := by
  have hindex : index s.inode.blockIds k = pure b := by
    unfold index
    rw [hb]
  unfold writeLoop
  simp only [if_neg hmore, Prog.run_bind, turn_use, follow_done, hmaxData, if_neg hzero, hk,
    if_pos hentry, hindex, Prog.run_pure, turn_readBlock, List.nil_append, hfill]
  rfl

/-- A turn that appends a block to the file. -/
theorem turn_writeLoop_append {fd i size k maxData b : Nat} {s s' : WriteState} {t : BlockCalls}
    (hmore : ¬ s.totalWritten = size) (hmaxData : getMaxDataInBlock s.sb.fsInfo = maxData)
    (hzero : ¬ maxData = 0) (hk : s.fdPosition % 2 ^ 16 / maxData % 2 ^ 16 = k)
    (hentry : ¬ k < s.inode.blocksCount) (hb : firstFree s.sb.reservedBlocksMask = some b)
    (hlt : b < s.sb.fsInfo.blocksCount)
    (hroom : s.inode.blocksCount < s.sb.fsInfo.blocksCountInInode)
    (hlen : s.inode.blocksCount < s.inode.blockIds.length)
    (hfill : (fillBlock
      { s with
        sb := { s.sb with reservedBlocksMask := s.sb.reservedBlocksMask.set b true }
        inode := { s.inode with
          blockIds := s.inode.blockIds.set s.inode.blocksCount b
          blocksCount := (s.inode.blocksCount + 1) % 2 ^ 16 } }
      { initBlock s.sb.fsInfo b i with
        data := List.replicate s.sb.fsInfo.blockSize 0 }).run (blockHost blocks) ⟨[], []⟩ =
          (.done s', t)) :
    (writeLoop fd i size 1 s).run (blockHost blocks) ⟨[], []⟩ = (.done s', t) := by
  have hindex : index s.inode.blockIds s.inode.blocksCount =
      pure s.inode.blockIds[s.inode.blocksCount] := by
    unfold index
    rw [List.getElem?_eq_getElem hlen]
  have hreserve : reserveBlock s.sb =
      (b, { s.sb with reservedBlocksMask := s.sb.reservedBlocksMask.set b true }) := by
    unfold reserveBlock
    rw [hb]
  unfold writeLoop appendBlock
  simp only [if_neg hmore, Prog.run_bind, turn_use, follow_done, hmaxData, if_neg hzero, hk,
    if_neg hentry, hreserve, if_neg hlt.ne, if_neg hroom.ne, turn_acquire, hindex, Prog.run_pure,
    turn_writeInode, Bool.not_true, Bool.false_eq_true, if_false, hfill]
  rfl

end Writing

section Turns

variable {info : FsInfo}

/-- The entries of a file after a block was appended that it did not have. -/
theorem FileOn.distinct_append {blocks : Nat → Block} {inode : Inode}
    (h : FileOn info blocks inode) {b : Nat} (hlt : inode.blocksCount < info.blocksCountInInode)
    (hnew : ∀ i < inode.blocksCount, inode.blockIds[i]? ≠ some b) :
    ∀ i < inode.blocksCount + 1, ∀ j < inode.blocksCount + 1,
      (inode.blockIds.set inode.blocksCount b)[i]? =
        (inode.blockIds.set inode.blocksCount b)[j]? → i = j := by
  have hlen : inode.blocksCount < inode.blockIds.length := h.length ▸ hlt
  intro i hi j hj heq
  by_cases hic : i = inode.blocksCount
  · by_cases hjc : j = inode.blocksCount
    · rw [hic, hjc]
    · rw [hic, List.getElem?_set_self hlen, List.getElem?_set_ne (Ne.symm hjc)] at heq
      exact absurd heq.symm (hnew j (by omega))
  · by_cases hjc : j = inode.blocksCount
    · rw [hjc, List.getElem?_set_self hlen, List.getElem?_set_ne (Ne.symm hic)] at heq
      exact absurd heq (hnew i (by omega))
    · rw [List.getElem?_set_ne (Ne.symm hic), List.getElem?_set_ne (Ne.symm hjc)] at heq
      exact h.distinct i (by omega) j (by omega) heq

/-- The turn writes one block, which is the one of an entry of the file that it leaves; the
    entries of that file are different blocks. -/
def WriteTurn.LandsAt (t : WriteTurn info) (entry : Nat) : Prop :=
  ∃ s reads block, (writeLoop t.fileDescriptor t.inodeId t.size 1 t.state).run
      (blockHost t.blocks) ⟨[], []⟩ = (.done s, ⟨reads, [block]⟩) ∧
    entry < s.inode.blocksCount ∧ s.inode.blockIds[entry]? = some block.info.blockId ∧
    (∀ i < s.inode.blocksCount, ∀ j < s.inode.blocksCount,
      s.inode.blockIds[i]? = s.inode.blockIds[j]? → i = j) ∧
    ∀ j < t.count,
      block.data[t.state.fdPosition % getMaxDataInBlock info + j]? = t.state.data[j]?

/-- A turn on an entry that the file has. -/
theorem WriteTurn.landsAt_readEntry (t : WriteTurn info) (hinfo : info.Accepted)
    (hroom : sizeofBlockInfo < info.blockSize)
    (hentry : readEntry info t.state.fdPosition < t.state.inode.blocksCount) :
    t.LandsAt (readEntry info t.state.fdPosition) := by
  obtain ⟨hmaxData, hmaxSize, hpos, hlt⟩ := maxData_eq hinfo hroom
  have hgeometry : t.state.sb.fsInfo = info := t.geometry.geometry
  have hmax : getMaxDataInBlock t.state.sb.fsInfo = getMaxDataInBlock info := by rw [hgeometry]
  have hfold : t.state.fdPosition % 2 ^ 16 / getMaxDataInBlock info % 2 ^ 16 =
    readEntry info t.state.fdPosition := by rw [readEntry]
  have hlen : readEntry info t.state.fdPosition < t.state.inode.blockIds.length := by
    rw [t.file.length]
    exact hentry.trans_le t.file.count_le
  obtain ⟨b, hb⟩ : ∃ b, t.state.inode.blockIds[readEntry info t.state.fdPosition]? = some b :=
    ⟨_, List.getElem?_eq_getElem hlen⟩
  obtain ⟨s', block', hfill, hinode, hid, hdata⟩ := turn_fillBlock t.blocks [b] t.state
    (t.blocks b) (n := t.count)
    (by rw [hgeometry, WriteTurn.count]) (hmax.symm ▸ hpos)
    (by rw [hgeometry, t.file.buffer, hmaxData, hmaxSize]) t.source
  refine ⟨s', [b], block', turn_writeLoop_patch t.more hmax hpos.ne' hfold hentry hb hfill,
    ?_, ?_, ?_, ?_⟩
  · rw [hinode]
    exact hentry
  · rw [hinode, hid, t.file.header, hb]
  · rw [hinode]
    exact t.file.distinct
  · rw [hmax] at hdata
    exact hdata

/-- A position has an entry in the block list. -/
theorem entry_lt (hinfo : info.Accepted) (hroom : sizeofBlockInfo < info.blockSize) {pos : Nat}
    (hlt : pos < getMaxDataSizeOfAllBlocks info) :
    pos / getMaxDataInBlock info < info.blocksCountInInode := by
  obtain ⟨-, -, hpos, -⟩ := maxData_eq hinfo hroom
  have hall : getMaxDataSizeOfAllBlocks info ≤ getMaxDataInBlock info * info.blocksCountInInode :=
    Nat.mod_le _ _
  rw [Nat.div_lt_iff_lt_mul hpos, Nat.mul_comm]
  exact hlt.trans_le hall

/-- A turn that appends a block: it is the next entry. -/
theorem WriteTurn.landsAt_blocksCount (t : WriteTurn info) (hinfo : info.Accepted)
    (hroom : sizeofBlockInfo < info.blockSize)
    (hentry : ¬ readEntry info t.state.fdPosition < t.state.inode.blocksCount) :
    t.LandsAt t.state.inode.blocksCount := by
  obtain ⟨hmaxData, hmaxSize, hpos, hlt⟩ := maxData_eq hinfo hroom
  have hgeometry : t.state.sb.fsInfo = info := t.geometry.geometry
  have hmax : getMaxDataInBlock t.state.sb.fsInfo = getMaxDataInBlock info := by rw [hgeometry]
  have hfold : t.state.fdPosition % 2 ^ 16 / getMaxDataInBlock info % 2 ^ 16 =
    readEntry info t.state.fdPosition := by rw [readEntry]
  obtain ⟨b, hb⟩ : ∃ b, firstFree t.state.sb.reservedBlocksMask = some b := by
    obtain ⟨i, hi⟩ := List.mem_iff_getElem?.mp (t.space (Nat.le_of_not_lt hentry))
    exact exists_firstFree hi
  have hltb : b < t.state.sb.fsInfo.blocksCount := by
    rw [hgeometry, ← t.geometry.blocks]
    exact (firstFree_eq_some_iff.mp hb).1
  have hcountLt : t.state.inode.blocksCount < info.blocksCountInInode :=
    ((Nat.le_of_not_lt hentry).trans (readEntry_le info _)).trans_lt
      (entry_lt hinfo hroom t.position)
  have hsmall : info.blocksCountInInode < 2 ^ 16 := hinfo.fields _ (by simp)
  have hmod : (t.state.inode.blocksCount + 1) % 2 ^ 16 = t.state.inode.blocksCount + 1 :=
    Nat.mod_eq_of_lt (by omega)
  have hlen : t.state.inode.blocksCount < t.state.inode.blockIds.length := by
    rw [t.file.length]
    exact hcountLt
  -- the buffer of a new block has room for a whole block
  have hbuffer : getMaxDataInBlock t.state.sb.fsInfo ≤
      (List.replicate t.state.sb.fsInfo.blockSize (0 : UInt8)).length := by
    rw [hmax, hmaxData, List.length_replicate, hgeometry]
    exact Nat.sub_le _ _
  obtain ⟨s', block', hfill, hinode, hid, hdata⟩ := turn_fillBlock t.blocks []
    ({ t.state with
      sb := { t.state.sb with
        reservedBlocksMask := t.state.sb.reservedBlocksMask.set b true }
      inode := { t.state.inode with
        blockIds := t.state.inode.blockIds.set t.state.inode.blocksCount b
        blocksCount := (t.state.inode.blocksCount + 1) % 2 ^ 16 } })
    ({ initBlock t.state.sb.fsInfo b t.inodeId with
      data := List.replicate t.state.sb.fsInfo.blockSize 0 }) (n := t.count)
    (by rw [hgeometry, WriteTurn.count]) (hmax.symm ▸ hpos) hbuffer t.source
  have hnew : ∀ i < t.state.inode.blocksCount, t.state.inode.blockIds[i]? ≠ some b := by
    intro i hi heq
    have htaken := t.reserved i hi b heq
    rw [getElem?_firstFree hb] at htaken
    cases htaken
  refine ⟨s', [], block', turn_writeLoop_append t.more hmax hpos.ne' hfold hentry hb hltb
    (hgeometry.symm ▸ hcountLt) hlen hfill, ?_, ?_, ?_, ?_⟩
  · rw [hinode]
    show _ < (t.state.inode.blocksCount + 1) % 2 ^ 16
    rw [hmod]
    exact Nat.lt_succ_self _
  · rw [hinode, hid]
    exact List.getElem?_set_self hlen
  · rw [hinode]
    show ∀ i < (t.state.inode.blocksCount + 1) % 2 ^ 16,
      ∀ j < (t.state.inode.blocksCount + 1) % 2 ^ 16, _
    rw [hmod]
    exact t.file.distinct_append hcountLt hnew
  · have hdata' : ∀ j < t.count, block'.data[t.state.fdPosition %
        getMaxDataInBlock t.state.sb.fsInfo + j]? = t.state.data[j]? := hdata
    rw [hmax] at hdata'
    exact hdata'

/-- **A turn that writes** lands at its `writeEntry`. -/
theorem WriteTurn.landsAt (t : WriteTurn info) (hinfo : info.Accepted)
    (hroom : sizeofBlockInfo < info.blockSize) :
    t.LandsAt (writeEntry info t.state.inode.blocksCount t.state.fdPosition) := by
  unfold writeEntry
  split
  · exact t.landsAt_readEntry hinfo hroom (by assumption)
  · exact t.landsAt_blocksCount hinfo hroom (by assumption)

/-- The bytes of a turn have the entry of its position, and offsets one after the other. -/
theorem entry_offset_add (pos : Nat) {n j : Nat} (hj : j < n - pos % n) :
    (pos + j) / n = pos / n ∧ (pos + j) % n = pos % n + j := by
  have hlt : pos % n + j < n := by omega
  have hsplit : pos + j = n * (pos / n) + (pos % n + j) := by
    have hdiv := Nat.div_add_mod pos n
    omega
  constructor
  · rw [hsplit, Nat.mul_add_div (by omega), Nat.div_eq_of_lt hlt, Nat.add_zero]
  · rw [hsplit, Nat.mul_add_mod, Nat.mod_eq_of_lt hlt]

/-- **A turn that writes is exact** exactly if its position is small, and the file has no gap
    before it. -/
theorem WriteTurn.exact_iff (t : WriteTurn info) (hinfo : info.Accepted)
    (hroom : sizeofBlockInfo < info.blockSize) :
    t.Exact ↔ t.state.fdPosition < 2 ^ 16 ∧
      t.state.fdPosition / getMaxDataInBlock info ≤ t.state.inode.blocksCount := by
  obtain ⟨-, -, hpos, -⟩ := maxData_eq hinfo hroom
  obtain ⟨s, reads, block, hrun, hlt, hid, hdistinct, hdata⟩ := t.landsAt hinfo hroom
  have hoffset : t.state.fdPosition % getMaxDataInBlock info < getMaxDataInBlock info :=
    Nat.mod_lt _ hpos
  have hneed := t.need
  rw [← writeEntry_eq_iff hinfo hroom]
  constructor
  · rintro ⟨s', reads', block', hrun', hbytes⟩
    rw [hrun] at hrun'
    cases hrun'
    have hpositive : 0 < t.count := by
      unfold WriteTurn.count
      omega
    obtain ⟨hlt', hid', -⟩ := hbytes 0 hpositive
    exact hdistinct _ hlt _ hlt' (hid.trans hid'.symm)
  · intro hentry
    refine ⟨s, reads, block, hrun, ?_⟩
    intro j hj
    obtain ⟨hdiv, hmod⟩ := entry_offset_add _ (hj.trans_le (Nat.min_le_right _ _))
    rw [hdiv, hmod, ← hentry]
    exact ⟨hlt, hid, hdata j hj⟩

/-! ### A turn that reads -/

/-- **A turn that reads** from an entry that the file has: if it returns, its block is the one of
    that entry. -/
theorem turn_readLoop_block {blocks : Nat → Block} {sb : Superblock} {inode : Inode}
    {size capacity k maxData b : Nat} {s s' : ReadState} {t : BlockCalls}
    (hmore : ¬ s.dest.length = size) (hmaxData : getMaxDataInBlock sb.fsInfo = maxData)
    (hzero : ¬ maxData = 0) (hk : s.fdPosition % 2 ^ 16 / maxData % 2 ^ 16 = k)
    (hentry : k ≤ inode.blocksCount) (hb : inode.blockIds[k]? = some b)
    (hrun : (readLoop sb inode size capacity 1 s).run (blockHost blocks) ⟨[], []⟩ =
      (.done s', t)) : t = ⟨[b], []⟩ := by
  have hindex : index inode.blockIds k = pure b := by
    unfold index
    rw [hb]
  unfold readLoop at hrun
  simp only [if_neg hmore, Prog.run_bind, turn_use, follow_done, hmaxData, if_neg hzero, hk,
    if_neg (Nat.not_lt.mpr hentry), hindex, Prog.run_pure, turn_readBlock, List.nil_append] at hrun
  generalize ((blocks b).info.dataSize + 2 ^ 32 - s.fdPosition % maxData) % 2 ^ 32 = remain at hrun
  generalize (if s.needToRead < remain then s.needToRead else remain) = n at hrun
  split at hrun
  · -- nothing is left in the block
    rw [Prog.run_bind, turn_release, follow_done] at hrun
    cases hrun
    rfl
  · split at hrun
    · cases hrun
    · rw [Prog.run_bind, turn_release, follow_done] at hrun
      cases hrun
      rfl

/-- What it copies, if its block has data past the position. -/
theorem turn_readLoop_copy (blocks : Nat → Block) (sb : Superblock) (size : Nat) {inode : Inode}
    {capacity k maxData b o dataSize n : Nat} {s : ReadState}
    (hmore : ¬ s.dest.length = size) (hmaxData : getMaxDataInBlock sb.fsInfo = maxData)
    (hzero : ¬ maxData = 0) (hk : s.fdPosition % 2 ^ 16 / maxData % 2 ^ 16 = k)
    (hentry : k ≤ inode.blocksCount) (hb : inode.blockIds[k]? = some b)
    (ho : s.fdPosition % maxData = o) (hsize : (blocks b).info.dataSize = dataSize)
    (hdata : o < dataSize) (hsmall : dataSize < 2 ^ 16) (hn : n = min s.needToRead (dataSize - o))
    (hbuffer : dataSize ≤ (blocks b).data.length)
    (hroom : s.dest.length + s.needToRead ≤ capacity) :
    ∃ s', (readLoop sb inode size capacity 1 s).run (blockHost blocks) ⟨[], []⟩ =
        (.done s', ⟨[b], []⟩) ∧
      s'.dest = s.dest ++ ((blocks b).data.drop o).take n := by
  have hindex : index inode.blockIds k = pure b := by
    unfold index
    rw [hb]
  have hremain : (dataSize + 2 ^ 32 - o) % 2 ^ 32 = dataSize - o := by omega
  have hleft : ¬ dataSize - o = 0 := by omega
  have hcopied : (if s.needToRead < dataSize - o then s.needToRead else dataSize - o) = n := by
    split <;> omega
  have hfits : ¬ ((blocks b).data.length < o + n ∨ capacity < s.dest.length + n) := by omega
  unfold readLoop
  simp only [if_neg hmore, Prog.run_bind, turn_use, follow_done, hmaxData, if_neg hzero, hk,
    if_neg (Nat.not_lt.mpr hentry), hindex, Prog.run_pure, turn_readBlock, List.nil_append, ho,
    hsize, hremain, if_neg hleft, hcopied, if_neg hfits, turn_release]
  exact ⟨_, rfl, rfl⟩

/-- **A turn that reads is exact** exactly if its position is small. -/
theorem ReadTurn.exact_iff (t : ReadTurn info) (hinfo : info.Accepted)
    (hroom : sizeofBlockInfo < info.blockSize) : t.Exact ↔ t.state.fdPosition < 2 ^ 16 := by
  obtain ⟨hmaxData, hmaxSize, hpos, hlt⟩ := maxData_eq hinfo hroom
  have hmax : getMaxDataInBlock t.sb.fsInfo = getMaxDataInBlock info := by rw [t.geometry]
  have hfold : t.state.fdPosition % 2 ^ 16 / getMaxDataInBlock info % 2 ^ 16 =
    readEntry info t.state.fdPosition := by rw [readEntry]
  have hentry : readEntry info t.state.fdPosition < t.inode.blocksCount :=
    (readEntry_le info _).trans_lt t.inside
  have hget : ∀ i < t.inode.blocksCount, ∃ b, t.inode.blockIds[i]? = some b := by
    intro i hi
    exact ⟨_, List.getElem?_eq_getElem (t.file.length ▸ hi.trans_le t.file.count_le)⟩
  obtain ⟨b, hb⟩ := hget _ hentry
  rw [← readEntry_eq_iff hinfo hroom]
  constructor
  · -- the turn reads the block of the folded entry; no other entry lists that
    rintro ⟨s, b', copied, hrun, -, hne, hbytes⟩
    have hcalls := turn_readLoop_block t.more hmax hpos.ne' hfold hentry.le hb hrun
    cases hcalls
    obtain ⟨hid, -⟩ := hbytes 0 (List.length_pos_iff.mpr hne)
    exact t.file.distinct _ hentry _ t.inside (hb.trans hid.symm)
  · -- the entry is the one of the position
    intro heq
    rw [heq] at hfold hb
    obtain ⟨hdata, hfilled⟩ := t.filled b hb
    have hbuffer := t.file.buffer b
    have hneed := t.need
    obtain ⟨s, hrun, hdest⟩ := turn_readLoop_copy t.blocks t.sb t.size
      (n := min t.state.needToRead
        ((t.blocks b).info.dataSize - t.state.fdPosition % getMaxDataInBlock info))
      t.more hmax hpos.ne' hfold t.inside.le hb rfl rfl hdata (by omega) rfl (by omega) t.room
    have hlen : (((t.blocks b).data.drop (t.state.fdPosition % getMaxDataInBlock info)).take
        (min t.state.needToRead ((t.blocks b).info.dataSize -
          t.state.fdPosition % getMaxDataInBlock info))).length = min t.state.needToRead
        ((t.blocks b).info.dataSize - t.state.fdPosition % getMaxDataInBlock info) := by
      rw [List.length_take, List.length_drop]
      omega
    refine ⟨s, b, _, hrun, hdest, ?_, ?_⟩
    · apply List.ne_nil_of_length_pos
      omega
    · intro j hj
      rw [hlen] at hj
      obtain ⟨hdiv, hmod⟩ := entry_offset_add t.state.fdPosition
        (n := getMaxDataInBlock info) (j := j) (by omega)
      rw [hdiv, hmod, hb, List.getElem?_take_of_lt hj, List.getElem?_drop]
      exact ⟨rfl, rfl⟩

end Turns

/-! ### Exactness -/

/-- **The mapping of positions** over an accepted geometry: a turn that writes is exact exactly
    if its position is below `2 ^ 16` and its entry is one the file has or the next one; a turn
    that reads is exact exactly if its position is below `2 ^ 16`; and no two positions have the
    same entry and offset. -/
theorem positions_exact_iff (info : FsInfo) (hinfo : info.Accepted)
    (hroom : sizeofBlockInfo < info.blockSize) :
    (∀ t : WriteTurn info, t.Exact ↔ t.state.fdPosition < 2 ^ 16 ∧
      t.state.fdPosition / getMaxDataInBlock info ≤ t.state.inode.blocksCount) ∧
    (∀ t : ReadTurn info, t.Exact ↔ t.state.fdPosition < 2 ^ 16) ∧
    ∀ p q, p / getMaxDataInBlock info = q / getMaxDataInBlock info →
      p % getMaxDataInBlock info = q % getMaxDataInBlock info → p = q := by
  refine ⟨fun t => t.exact_iff hinfo hroom, fun t => t.exact_iff hinfo hroom, ?_⟩
  intro p q hdiv hmod
  rw [← Nat.div_add_mod p (getMaxDataInBlock info), ← Nat.div_add_mod q (getMaxDataInBlock info),
    hdiv, hmod]

/-- The first byte of an empty file of the default geometry. -/
def firstTurn : WriteTurn defaultFsInfo where
  blocks b := initBlock defaultFsInfo b 1
  fileDescriptor := 0
  inodeId := 1
  size := 1
  state := ⟨initSuperBlock, initDescriptorsTable defaultFsInfo, initInode defaultFsInfo 1 true, 0,
    [7], 0, 1⟩
  geometry := ⟨rfl, List.length_replicate, List.length_replicate⟩
  file := {
    length := List.length_replicate
    count_le := Nat.zero_le _
    distinct := fun i hi => absurd hi (Nat.not_lt_zero i)
    header := fun _ => rfl
    buffer := fun _ => List.length_replicate }
  reserved i hi := absurd hi (Nat.not_lt_zero i)
  position := by decide
  more := by decide
  need := by decide
  source := by decide
  space := fun _ => List.mem_replicate.mpr ⟨by decide, rfl⟩

/-- It is written where it belongs. -/
theorem positions_exact_first : firstTurn.Exact :=
  ((positions_exact_iff defaultFsInfo ⟨by decide, rfl⟩ (by decide)).1 firstTurn).mpr
    ⟨by decide, by decide⟩

/-- A geometry whose files are longer than `2 ^ 16` bytes. -/
def wideBlocks : FsInfo := { defaultFsInfo with blockSize := 65535, blocksCountInInode := 2 }

/-- The byte at position `2 ^ 16` of a file of two full blocks. -/
def wideTurn : ReadTurn wideBlocks where
  blocks b := { initBlock wideBlocks b 1 with info := ⟨b, 1, 0, 65528⟩ }
  sb := ⟨wideBlocks, [], []⟩
  inode := ⟨1, 2, true, [1, 2]⟩
  size := 1
  capacity := 1
  state := ⟨65536, [], 1⟩
  geometry := rfl
  file := {
    length := rfl
    count_le := Nat.le_refl 2
    distinct := by decide
    header := fun _ => rfl
    buffer := fun _ => List.length_replicate }
  position := by decide
  inside := by decide
  filled := fun _ _ =>
    ⟨(by decide : 65536 % getMaxDataInBlock wideBlocks < 65528), Nat.le_refl 65528⟩
  more := by decide
  need := by decide
  room := by decide

/-- Not every turn is exact: at position `2 ^ 16` the reader goes back to the first block. -/
theorem not_positions_exact : ¬ ∀ info : FsInfo, info.Accepted →
    sizeofBlockInfo < info.blockSize →
    (∀ t : WriteTurn info, t.Exact) ∧ ∀ t : ReadTurn info, t.Exact := by
  intro hexact
  have hinfo : wideBlocks.Accepted := ⟨by decide, rfl⟩
  have hread := (hexact wideBlocks hinfo (by decide)).2 wideTurn
  rw [wideTurn.exact_iff hinfo (by decide)] at hread
  revert hread
  decide

end MiniExt
