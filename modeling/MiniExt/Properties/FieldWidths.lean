import MiniExt.Disk.Contract
import MiniExt.Properties.FlatImage
import MiniExt.Runs.Create

namespace MiniExt

open Lib

/-!
# The widths of the fields

The commands, on the contract of `Disk.Contract`: on an image of a geometry with room for the
header of a block, whatever a command reads, what it stores fits the fields of the image.  The
positions of descriptors and the data sizes of blocks are the numbers a loop adds up, and it
reduces them to their widths.

* `WriteState.FitsIn` — the variables of the loop of `write_to_file`;
* `careful_writeToFile`, `careful_readFile`, … — the commands;
* `Command.careful` — all of them;
* `stored_values_fit` — in every environment, the values of every call fit.
-/

section Parts

variable {info : FsInfo} {F : HostFiles} {sb : Superblock} {dt : DescriptorsTable}

/-! ### `init` and `ls` -/

/-- A new table fits its fields. -/
theorem initDescriptorsTable_fitsIn : (initDescriptorsTable info).FitsIn info where
  reserved := List.length_replicate
  inodes := List.length_replicate
  positions := List.length_replicate
  inodeId_lt := by
    intro i hi
    rw [List.eq_of_mem_replicate hi]
    decide
  position_lt := by
    intro p hp
    rw [List.eq_of_mem_replicate hp]
    decide

/-- **`init_fs`** stores what fits. -/
theorem careful_initFs (hinfo : defaultFsInfo.InRange) : Careful defaultFsInfo F initFs := by
  have hsb : initSuperBlock.FitsIn defaultFsInfo :=
    ⟨rfl, List.length_replicate, List.length_replicate⟩
  refine (careful_openImage _).bind fun opened _ => ?_
  split
  · exact .halt
  refine (careful_acquire _).bind fun _ _ => (careful_writeSuperBlock hsb).bind fun stored _ => ?_
  split
  · exact (careful_release _).bind fun _ _ => .halt
  refine (careful_acquire _).bind fun _ _ =>
    (careful_writeDescriptorTable hsb initDescriptorsTable_fitsIn).bind fun stored _ => ?_
  split
  · exact (careful_release _).bind fun _ _ => (careful_release _).bind fun _ _ => .halt
  · exact (obeys_createDirHelper hinfo hsb (by decide) true).bind fun _ _ =>
      (careful_release _).bind fun _ _ => careful_leave

/-- The lines of `ls` store nothing. -/
theorem careful_lsRecords (h : sb.FitsIn info) (rs : List BlockRecord) :
    Careful info F (lsRecords sb rs) := by
  induction rs with
  | nil => exact (careful_release _).bind fun _ _ => careful_leave
  | cons r rs ih =>
    refine (obeys_readInode _ h _).bind fun read _ => ?_
    split
    · exact careful_leave
    · exact (careful_release _).bind fun _ _ => ih

/-- The listing of an inode stores nothing. -/
theorem careful_lsInode (h : sb.FitsIn info) (inode : Inode) :
    Careful info F (lsInode sb inode) := by
  refine (careful_use _).bind fun _ _ => ?_
  split
  · exact careful_leaveInode
  refine (careful_index _ _).bind fun b _ => (obeys_readBlock _ h b).bind fun block _ => ?_
  split
  · exact careful_leaveInode
  · exact (careful_release _).bind fun _ _ => careful_lsRecords h _

/-- **`ls`** stores nothing. -/
theorem careful_ls (hinfo : info.InRange) (path : List UInt8) : Careful info F (ls path) := by
  refine obeys_enter.bind fun sb hsb => (obeys_getInodeIdOfDir hinfo hsb path).bind fun i _ => ?_
  split
  · exact careful_leave
  · exact (obeys_readInode _ hsb i).bind fun _ _ =>
      obeys_optional careful_leave (careful_lsInode hsb _)

/-! ### Descriptors -/

/-- A table whose entries are replaced by ones that fit. -/
theorem DescriptorsTable.FitsIn.set (h : dt.FitsIn info) (fd : Nat) (reserved : Bool) {i p : Nat}
    (hi : i < 2 ^ 16) (hp : p < 2 ^ 32) :
    DescriptorsTable.FitsIn info ⟨dt.reservedFd.set fd reserved, dt.fdToInode.set fd i,
      dt.fdToPosition.set fd p⟩ where
  reserved := by rw [List.length_set, h.reserved]
  inodes := by rw [List.length_set, h.inodes]
  positions := by rw [List.length_set, h.positions]
  inodeId_lt := by
    intro j hj
    rcases List.mem_or_eq_of_mem_set hj with hj | rfl
    · exact h.inodeId_lt j hj
    · exact hi
  position_lt := by
    intro q hq
    rcases List.mem_or_eq_of_mem_set hq with hq | rfl
    · exact h.position_lt q hq
    · exact hp

/-- A position that fits may be set. -/
theorem DescriptorsTable.FitsIn.setPosition (h : dt.FitsIn info) (fd : Nat) {p : Nat}
    (hp : p < 2 ^ 32) :
    DescriptorsTable.FitsIn info { dt with fdToPosition := dt.fdToPosition.set fd p } where
  reserved := h.reserved
  inodes := h.inodes
  positions := by rw [List.length_set, h.positions]
  inodeId_lt := h.inodeId_lt
  position_lt := by
    intro q hq
    rcases List.mem_or_eq_of_mem_set hq with hq | rfl
    · exact h.position_lt q hq
    · exact hp

/-- A table that fits fits when a descriptor is freed. -/
theorem freeDescriptor_fitsIn (h : dt.FitsIn info) (fd : Nat) :
    (freeDescriptor dt fd).FitsIn info := by
  unfold freeDescriptor
  split
  · exact h.set fd false (by decide) (by decide)
  · exact h

/-- A table that fits fits when a descriptor is reserved for an inode. -/
theorem reserveDescriptor_fitsIn (h : dt.FitsIn info) {i fd : Nat} {dt' : DescriptorsTable}
    (hi : i < 2 ^ 16) (hdt : reserveDescriptor dt i = some (fd, dt')) : dt'.FitsIn info := by
  obtain ⟨-, -, rfl⟩ := reserveDescriptor_eq hdt
  exact h.set fd true hi (by decide)

/-- **`open_file`** stores a table that fits. -/
theorem careful_openFile (hinfo : info.InRange) (path : List UInt8) :
    Careful info F (openFile path) := by
  refine obeys_enter.bind fun sb hsb =>
    (Prog.Obeys.ofOutcome (Q := fun _ => True) fun _ _ => trivial).bind fun parts _ => ?_
  split
  · exact careful_leave.bind fun _ _ => careful_pure _
  refine (obeys_getInodeIdOfDir hinfo hsb _).bind fun i _ => ?_
  split
  · exact careful_leave.bind fun _ _ => careful_pure _
  refine (obeys_readInode _ hsb i).bind fun read _ => obeys_optional careful_leave ?_
  refine (careful_use _).bind fun _ _ => ?_
  dsimp only
  split
  · exact careful_leaveInode.bind fun _ _ => careful_pure _
  refine (obeys_readDescriptorsTable hsb).bind fun table htable => ?_
  split
  · exact careful_leaveInode.bind fun _ _ => .halt
  refine (obeys_getFileInodeId hinfo _ _ hsb).bind fun i hi => ?_
  split
  · exact (careful_release _).bind fun _ _ => careful_leaveInode.bind fun _ _ => careful_pure _
  refine (careful_use _).bind fun _ _ => ?_
  split
  · exact (careful_release _).bind fun _ _ => careful_leaveInode.bind fun _ _ => careful_pure _
  rename_i dt' hdt'
  refine (careful_writeDescriptorTable hsb
    (reserveDescriptor_fitsIn (htable _ rfl) hi hdt')).bind fun stored _ => ?_
  split
  · exact (careful_release _).bind fun _ _ => careful_leaveInode.bind fun _ _ => .halt
  · exact (careful_release _).bind fun _ _ => careful_leaveInode.bind fun _ _ => careful_pure _

/-- **`close_file`** stores a table that fits. -/
theorem careful_closeFile (fd : Nat) : Careful info F (closeFile fd) := by
  refine obeys_enterTable.bind fun r hr => ?_
  obtain ⟨sb, dt⟩ := r
  exact (careful_use _).bind fun _ _ => (careful_index _ _).bind fun _ _ =>
    (careful_storeTable hr.1 (freeDescriptor_fitsIn hr.2 fd)).bind fun _ _ => careful_leaveTable

/-- A position `lseek` accepts is below the maximal size of a file, a 32-bit number. -/
theorem careful_lseekPos (fd pos : Nat) : Careful info F (lseekPos fd pos) := by
  refine obeys_enterTable.bind fun r hr => ?_
  obtain ⟨sb, dt⟩ := r
  refine (careful_use _).bind fun _ _ => (careful_index _ _).bind fun reserved _ => ?_
  split
  · exact (careful_release _).bind fun _ _ => careful_release _
  split
  · exact (careful_release _).bind fun _ _ => careful_release _
  rename_i hpos
  have hmax : getMaxDataSizeOfAllBlocks sb.fsInfo < 2 ^ 32 := by
    unfold getMaxDataSizeOfAllBlocks
    exact Nat.mod_lt _ (by decide)
  have hpos : pos < 2 ^ 32 := (Nat.lt_of_not_le hpos).trans hmax
  exact (careful_storeTable hr.1 (hr.2.setPosition fd hpos)).bind fun _ _ => careful_leaveTable

/-! ### `write` -/

/-- The variables of the loop of `write_to_file` fit. -/
structure WriteState.FitsIn (info : FsInfo) (s : WriteState) : Prop where
  sb : s.sb.FitsIn info
  dt : s.dt.FitsIn info
  inode : s.inode.FitsIn info
  fdPosition_lt : s.fdPosition < 2 ^ 32

/-- The epilogue of a write stores what fits. -/
theorem careful_storeAll (fd : Nat) {s : WriteState} (h : s.FitsIn info) :
    Careful info F (storeAll fd s) := by
  refine (careful_use _).bind fun _ _ => (careful_writeDescriptorTable h.sb
    (h.dt.setPosition fd h.fdPosition_lt)).bind fun stored _ => ?_
  split
  · exact (careful_release _).bind fun _ _ => careful_exitReleased
  refine (careful_release _).bind fun _ _ =>
    (careful_writeInode _ h.sb h.inode).bind fun stored _ => ?_
  split
  · exact careful_exitReleased
  refine (careful_release _).bind fun _ _ => (careful_writeSuperBlock h.sb).bind fun stored _ => ?_
  split
  · exact careful_leave.bind fun _ _ => .halt
  · exact careful_leave

/-- The second half of a turn, by the place and the length of the piece it stores. -/
theorem fillBlock_eq (s : WriteState) (block : Block) :
    ∃ offset n, fillBlock s block = (do
      use .block
      if block.data.length < offset + n ∨ s.data.length < n then
        halt .memoryError
      else
        if !(← writeBlock .block s.sb { block with
            info := { block.info with dataSize := (offset + n) % 2 ^ 16 }
            data := memcpy block.data offset (s.data.take n) }) then
          release .block
          exitReleased
        release .block
        return { s with
          fdPosition := (s.fdPosition + n) % 2 ^ 32
          data := s.data.drop n
          totalWritten := s.totalWritten + n
          needToWriteSize := s.needToWriteSize - n }) := by
  obtain ⟨offset, hoffset⟩ : ∃ offset, s.fdPosition % getMaxDataInBlock s.sb.fsInfo = offset :=
    ⟨_, rfl⟩
  obtain ⟨n, hn⟩ : ∃ n, (if s.needToWriteSize < getMaxDataInBlock s.sb.fsInfo - offset then
    s.needToWriteSize else getMaxDataInBlock s.sb.fsInfo - offset) = n := ⟨_, rfl⟩
  refine ⟨offset, n, ?_⟩
  unfold fillBlock
  simp only [hoffset, hn]

/-- The second half of a turn keeps the length of the buffer. -/
theorem obeys_fillBlock {s : WriteState} (h : s.FitsIn info) {block : Block}
    (hblock : block.Storable info) :
    (fillBlock s block).Obeys (fitting info F) (·.FitsIn info) := by
  obtain ⟨offset, n, heq⟩ := fillBlock_eq s block
  rw [heq]
  refine (careful_use _).bind fun _ _ => ?_
  split
  · exact .halt
  rename_i hroom
  have hpiece : offset + (s.data.take n).length ≤ block.data.length := by
    rw [List.length_take]
    omega
  have hfilled : { block with
      info := { block.info with dataSize := (offset + n) % 2 ^ 16 }
      data := memcpy block.data offset (s.data.take n) }.Storable info := by
    refine ⟨hblock.blockId_lt, hblock.inodeId_lt, hblock.recordsCount_lt,
      Nat.mod_lt _ (by decide), hblock.count_le, hblock.records, ?_⟩
    intro hnull
    simp only [Image.length_memcpy hpiece]
    exact hblock.buffer hnull
  have hpos : (s.fdPosition + n) % 2 ^ 32 < 2 ^ 32 := Nat.mod_lt _ (by decide)
  refine (careful_writeBlock _ h.sb hfilled).bind fun stored _ => ?_
  exact obeys_optional ((careful_release _).bind fun _ _ => careful_exitReleased)
    ((careful_release _).bind fun _ _ => .ret ⟨h.sb, h.dt, h.inode, hpos⟩)

/-- A block has room for its header, so an empty one of the size of a whole block is long
    enough for its data. -/
theorem maxSizeOfData_le (hroom : sizeofBlockInfo ≤ info.blockSize) :
    maxSizeOfData info ≤ info.blockSize := by
  unfold maxSizeOfData
  unfold sizeofBlockInfo at *
  omega

/-- A fresh block of an inode. -/
theorem freshBlock_storable (hroom : sizeofBlockInfo ≤ info.blockSize) {b i : Nat}
    (hb : b < 2 ^ 16) (hi : i < 2 ^ 16) :
    { initBlock info b i with data := List.replicate info.blockSize 0 }.Storable info where
  blockId_lt := hb
  inodeId_lt := hi
  recordsCount_lt := by
    show 0 < 2 ^ 8
    decide
  dataSize_lt := by
    show 0 < 2 ^ 16
    decide
  count_le := Nat.zero_le _
  records := by
    intro r hr
    cases hr
  buffer := by
    intro _
    simp only [List.length_replicate]
    exact maxSizeOfData_le hroom

/-- An inode with a block appended. -/
theorem Inode.FitsIn.append {inode : Inode} (h : inode.FitsIn info) {b : Nat} (hb : b < 2 ^ 16) :
    { inode with
      blockIds := inode.blockIds.set inode.blocksCount b
      blocksCount := (inode.blocksCount + 1) % 2 ^ 16 }.FitsIn info where
  id_lt := h.id_lt
  count_lt := Nat.mod_lt _ (by decide)
  length := by rw [List.length_set, h.length]
  blockId_lt := by
    intro x hx
    rcases List.mem_or_eq_of_mem_set hx with hx | rfl
    · exact h.blockId_lt x hx
    · exact hb

/-- An appended block fits, and so does the list it is entered in. -/
theorem obeys_appendBlock (hroom : sizeofBlockInfo ≤ info.blockSize)
    {s : WriteState} (h : s.FitsIn info) {inodeId newBlockId : Nat} (hi : inodeId < 2 ^ 16)
    (hb : newBlockId < 2 ^ 16) :
    (appendBlock s inodeId newBlockId).Obeys (fitting info F)
      fun r => r.1.FitsIn info ∧ r.2.Storable info := by
  have hgrown := h.inode.append hb
  have hblock := freshBlock_storable hroom hb hi
  rw [← h.sb.geometry] at hblock
  refine (careful_acquire _).bind fun _ _ => (careful_index _ _).bind fun _ _ =>
    (careful_writeInode _ h.sb hgrown).bind fun stored _ => ?_
  refine obeys_optional ((careful_release _).bind fun _ _ => careful_exitReleased) (.ret ⟨?_, ?_⟩)
  · exact ⟨h.sb, h.dt, hgrown, h.fdPosition_lt⟩
  · rw [h.sb.geometry] at hblock ⊢
    exact hblock

/-- **The loop of `write_to_file`.** -/
theorem obeys_writeLoop (hinfo : info.InRange) (hroom : sizeofBlockInfo ≤ info.blockSize)
    (fd : Nat) {inodeId : Nat} (hi : inodeId < 2 ^ 16) (size fuel : Nat) {s : WriteState}
    (h : s.FitsIn info) :
    (writeLoop fd inodeId size fuel s).Obeys (fitting info F) (·.FitsIn info) := by
  induction fuel generalizing s with
  | zero => exact .ret h
  | succ fuel ih =>
    unfold writeLoop
    split
    · exact .ret h
    refine (careful_use _).bind fun _ _ => (careful_use _).bind fun _ _ => ?_
    dsimp only
    by_cases hzero : getMaxDataInBlock s.sb.fsInfo = 0
    · rw [if_pos hzero]
      exact .halt
    rw [if_neg hzero]
    split
    · refine (careful_index _ _).bind fun b _ =>
        (obeys_readBlock _ h.sb b).bind fun block hblock => ?_
      split
      · exact (careful_release _).bind fun _ _ => careful_exitReleased.bind fun _ _ => .ret h
      · exact (obeys_fillBlock h (hblock _ rfl)).bind fun s hs => ih hs
    obtain ⟨hsb, hlt⟩ := reserveBlock_fitsIn h.sb
    have hreserved : { s with sb := (reserveBlock s.sb).2 }.FitsIn info :=
      ⟨hsb, h.dt, h.inode, h.fdPosition_lt⟩
    generalize reserveBlock s.sb = reserved at hsb hlt hreserved
    obtain ⟨b, sb⟩ := reserved
    dsimp only at hsb hlt hreserved ⊢
    split
    · exact (careful_storeAll fd hreserved).bind fun _ _ => .ret hreserved
    rename_i hb
    rw [hsb.geometry] at hb
    split
    · exact (careful_storeAll fd hreserved).bind fun _ _ => .ret hreserved
    · exact (obeys_appendBlock hroom hreserved hi
        (hinfo.blockId_lt (hlt hb))).bind fun r hr =>
        (obeys_fillBlock hr.1 hr.2).bind fun s hs => ih hs

/-- **`write_to_file`** stores what fits. -/
theorem careful_writeToFile (hinfo : info.InRange) (hroom : sizeofBlockInfo ≤ info.blockSize)
    (fd : Nat) (data : List UInt8) : Careful info F (writeToFile fd data) := by
  refine obeys_enter.bind fun sb hsb => (obeys_readDescriptorsTable hsb).bind fun dt hdt => ?_
  split
  · exact careful_leave.bind fun _ _ => .halt
  have hdt := hdt _ rfl
  refine (careful_use _).bind fun _ _ => (careful_index _ _).bind fun reserved _ => ?_
  split
  · exact careful_leaveTable.bind fun _ _ => careful_pure _
  refine (obeys_index hdt.position_lt fd).bind fun pos hpos =>
    (obeys_index hdt.inodeId_lt fd).bind fun i hi =>
      (obeys_readInode _ hsb i).bind fun inode hinode => ?_
  split
  · exact careful_leaveTable.bind fun _ _ => .halt
  · exact (obeys_writeLoop hinfo hroom fd hi _ _ ⟨hsb, hdt, hinode _ rfl, hpos⟩).bind
      fun s hs => (careful_storeAll fd hs).bind fun _ _ => careful_pure _

/-- **`write_to_file_from_file`** stores what fits. -/
theorem careful_writeToFileFromFile (hinfo : info.InRange)
    (hroom : sizeofBlockInfo ≤ info.blockSize) (fd : Nat) {path : List UInt8}
    (hpath : F.isImage path = false) : Careful info F (writeToFileFromFile fd path) := by
  refine (careful_ask (c := .readHostFile path) hpath).bind fun buffer _ => ?_
  split
  · exact careful_pure _
  split
  · exact careful_pure _
  · exact (careful_writeToFile hinfo hroom _ _).bind fun _ _ => careful_pure _

/-! ### `read` -/

/-- **The loop of `read_file`** reduces the position to its width. -/
theorem obeys_readLoop (h : sb.FitsIn info) (inode : Inode) (size capacity fuel : Nat)
    {s : ReadState} (hpos : s.fdPosition < 2 ^ 32) :
    (readLoop sb inode size capacity fuel s).Obeys (fitting info F) (·.fdPosition < 2 ^ 32) := by
  induction fuel generalizing s with
  | zero => exact .ret hpos
  | succ fuel ih =>
    unfold readLoop
    split
    · exact .ret hpos
    refine (careful_use _).bind fun _ _ => (careful_use _).bind fun _ _ => ?_
    dsimp only
    by_cases hzero : getMaxDataInBlock sb.fsInfo = 0
    · rw [if_pos hzero]
      exact .halt
    rw [if_neg hzero]
    split
    · exact .ret hpos
    refine (careful_index _ _).bind fun b _ => (obeys_readBlock _ h b).bind fun block _ => ?_
    split
    · exact (careful_release _).bind fun _ _ => careful_exitReleased.bind fun _ _ => .ret hpos
    split
    · exact (careful_release _).bind fun _ _ => .ret hpos
    generalize (if s.needToRead < _ then _ else _ : Nat) = sizeToRead
    split
    · exact .halt
    · have hnext : (s.fdPosition + sizeToRead) % 2 ^ 32 < 2 ^ 32 := Nat.mod_lt _ (by decide)
      exact (careful_release _).bind fun _ _ => ih hnext

/-- **`read_file`** stores a table that fits. -/
theorem careful_readFile (fd size capacity : Nat) : Careful info F (readFile fd size capacity) := by
  refine obeys_enter.bind fun sb hsb => (obeys_readDescriptorsTable hsb).bind fun dt hdt => ?_
  split
  · exact careful_leave.bind fun _ _ => .halt
  have hdt := hdt _ rfl
  refine (careful_use _).bind fun _ _ => (careful_index _ _).bind fun reserved _ => ?_
  split
  · exact careful_leaveTable.bind fun _ _ => careful_pure _
  refine (obeys_index hdt.position_lt fd).bind fun pos hpos => (careful_index _ _).bind fun i _ =>
    (obeys_readInode _ hsb i).bind fun inode _ => ?_
  split
  · exact careful_leaveTable.bind fun _ _ => .halt
  · exact (obeys_readLoop hsb _ _ _ _ hpos).bind fun s hs =>
      (careful_writeDescriptorTable hsb (hdt.setPosition fd hs)).bind fun _ _ => obeys_optional
        ((careful_release _).bind fun _ _ => careful_exitReleased)
        ((careful_release _).bind fun _ _ => careful_leaveInode.bind fun _ _ => careful_pure _)

/-- **`read_file_to_file`** stores a table that fits. -/
theorem careful_readFileToFile (fd : Nat) (path : List UInt8) (size : Option Nat) :
    Careful info F (readFileToFile fd path size) := by
  refine obeys_enter.bind fun sb hsb => careful_leave.bind fun _ _ =>
    (careful_readFile _ _ _).bind fun buffer _ => ?_
  split
  · exact careful_pure _
  · exact (careful_ask (c := .writeHostFile path _) trivial).bind fun _ _ => careful_pure _

end Parts

/-- **What a command stores fits.**  On an image of a geometry whose numbers are in range and
    whose blocks have room for their header, every value a command stores fits its field, as
    long as every value it was given did; `init` stores the default geometry, and the image is
    not read as a host file when the command does not name it. -/
theorem Command.careful {info : FsInfo} (hinfo : info.InRange)
    (hroom : sizeofBlockInfo ≤ info.blockSize) {F : HostFiles} {c : Command}
    (hpath : ¬ c.NamesImage F) (hinit : c = .init → info = defaultFsInfo) :
    Careful info F c.prog := by
  cases c with
  | init =>
    cases hinit rfl
    exact careful_initFs hinfo
  | readFs => exact obeys_openFs.careful.bind fun _ _ => careful_leave
  | ls path => exact careful_ls hinfo path.bytes
  | mkdir path =>
    exact careful_create hinfo (fun _ _ hsb hi => obeys_createDirHelper hinfo hsb hi false) _ _
  | touch path =>
    exact careful_create hinfo (fun _ i hsb _ => obeys_createFileHelper hinfo hsb i) _ _
  | «open» path => exact (careful_openFile hinfo path.bytes).bind fun _ _ => careful_pure _
  | close fd => exact careful_closeFile fd
  | write fd data => exact (careful_writeToFile hinfo hroom fd data).bind fun _ _ => careful_pure _
  | writeFrom fd path =>
    exact careful_writeToFileFromFile hinfo hroom fd (Bool.eq_false_iff.mpr hpath)
  | read fd size =>
    refine (careful_readFile fd size _).bind fun _ _ => ?_
    split
    · exact .halt
    · exact careful_pure _
  | readTo fd path size => exact careful_readFileToFile fd path.bytes size
  | lseek fd pos => exact careful_lseekPos fd pos

/-! ### Every environment -/

/-- **No number is cut off on its way to the disk.**  On an image of a geometry whose numbers are
    in range and whose blocks have room for their header, and in every environment that hands out
    values that fit, every call of every command is about that geometry and every value it stores
    fits its field; `init` stores the default geometry.  No host file that leads to the image is
    read, when the command names none. -/
theorem stored_values_fit {info : FsInfo} (hinfo : info.InRange)
    (hroom : sizeofBlockInfo ≤ info.blockSize) {F : HostFiles} {c : Command}
    (hpath : ¬ c.NamesImage F) (hinit : c = .init → info = defaultFsInfo) {ω : Type}
    (env : Environment host ω)
    (henv : ∀ call w, HostCall.Fits info F call → HostCall.Granted info call (env call w).1)
    (w : ω) : c.prog.Passes (fitting info F).monitor env w () fun _ _ _ => True :=
  (Command.careful hinfo hroom hpath hinit).passes henv w

/-- An environment with the image of `init` behind it: it hands out the records of the root, and
    keeps a list of what it was given to store. -/
def freshImage : Environment host (List Item)
  | .openImage _, w => (true, w)
  | .acquire _, w | .use _, w | .release _, w => ((), w)
  | .readSuperBlock, w => (some formatted.sb, w)
  | .writeSuperBlock _, w => (true, w ++ [.superblock])
  | .readDescriptorsTable _, w => (some formatted.dt, w)
  | .writeDescriptorTable _ _, w => (true, w ++ [.table])
  | .readInode _ i, w => (if i = 0 then some ⟨0, 1, false, List.replicate 8 0⟩ else none, w)
  | .writeInode _ inode, w => (true, w ++ [.inode inode.id])
  | .readBlock info b, w =>
    (if b = 0 then .read ⟨⟨0, 0, 2, 0⟩, some [⟨0, nameField info dotName⟩,
      ⟨0, nameField info twoDotsName⟩], Store.dataBuffer info []⟩ else .failed, w)
  | .writeBlock _ block, w => (.stored, w ++ [.block block.info.blockId])
  | .readHostFile _, w => (none, w)
  | .writeHostFile _ _, w => (true, w)

/-- Whatever it hands out fits. -/
theorem granted_freshImage (call : HostCall) (w : List Item)
    (hcall : call.Fits defaultFsInfo .onlyImage) :
    call.Granted defaultFsInfo (freshImage call w).1 := by
  cases call with
  | readSuperBlock =>
    rintro sb ⟨⟩
    exact ⟨by decide +kernel, by decide +kernel, by decide +kernel⟩
  | readDescriptorsTable info =>
    rintro dt ⟨⟩
    obtain rfl : info = defaultFsInfo := hcall
    exact ⟨by decide +kernel, by decide +kernel, by decide +kernel, by decide +kernel,
      by decide +kernel⟩
  | readInode info i =>
    intro inode hinode
    obtain rfl : info = defaultFsInfo := hcall
    by_cases hi : i = 0
    · rw [show (freshImage (.readInode defaultFsInfo i) w).1 = _ from if_pos hi] at hinode
      cases hinode
      exact ⟨by decide, by decide, by decide, by decide⟩
    · rw [show (freshImage (.readInode defaultFsInfo i) w).1 = _ from if_neg hi] at hinode
      cases hinode
  | readBlock info b =>
    intro block hblock
    obtain rfl : info = defaultFsInfo := hcall
    by_cases hb : b = 0
    · rw [show (freshImage (.readBlock defaultFsInfo b) w).1 = _ from if_pos hb] at hblock
      cases hblock
      refine ⟨by decide, by decide, by decide, by decide, by decide, fun r hr => ?_, ?_⟩
      · rcases List.mem_cons.mp hr with rfl | hr
        · exact ⟨by decide, by decide⟩
        · rw [List.mem_singleton.mp hr]
          exact ⟨by decide, by decide⟩
      · rintro ⟨⟩
    · rw [show (freshImage (.readBlock defaultFsInfo b) w).1 = _ from if_neg hb] at hblock
      cases hblock
  | _ => exact trivial

/-- `mkdir /a` on a fresh image stores the block and the inode of the new directory, the masks
    and the record in the root, and each value fits. -/
theorem stored_values_fit_freshImage :
    (Command.mkdir ⟨[47, 97], by decide⟩).prog.Passes
        (fitting defaultFsInfo .onlyImage).monitor freshImage [] () (fun _ _ _ => True) ∧
      ((Command.mkdir ⟨[47, 97], by decide⟩).prog.run
        (fun c w => (.done (freshImage c w).1, (freshImage c w).2)) []).2 =
        [.block 1, .inode 1, .superblock, .block 0] :=
  ⟨stored_values_fit ⟨by decide, by decide, by decide, by decide⟩ (by decide) id
    Command.noConfusion _ granted_freshImage [], by decide +kernel⟩

end MiniExt
