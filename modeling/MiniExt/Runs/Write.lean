import MiniExt.Runs.Descriptors
import MiniExt.Invariant.Turns

namespace MiniExt

open Lib

/-!
# The run of `write`

The loop of `write_to_file` follows `Image.WriteRun`, turn by turn.  While it runs, the
superblock on disk is the one from before the call (`sb` below); the image of the relation
carries the superblock in memory, and `Image.onDisk` puts the two together.

* `run_storeAll` — the epilogue;
* `run_fillBlock`, `run_appendBlock` — the two halves of a turn;
* `run_writeLoop` — the loop, by induction on the relation;
* `run_writeToFile` — the command.
-/

variable {I : Image} {B : Superblock} {F : HostFiles} {T : List Store} {i fd size : Nat}

/-- The objects that are live in the loop. -/
def loopLive : List Handle := [.inode, .descriptorsTable, .superblock, .image]

/-- The variables of the loop with `data` still to be written, and `tail` beyond it. -/
def loopState (I : Image) (inode : Inode) (pos : Nat) (data tail : List UInt8) (size : Nat) :
    WriteState :=
  ⟨I.sb, I.dt, inode, pos, data ++ tail, size - data.length, data.length⟩

section LoopState

variable (I : Image) (inode : Inode) (pos : Nat) (data tail : List UInt8) (size : Nat)

/-- The loop starts with the superblock of the image. -/
@[simp] theorem loopState_sb : (loopState I inode pos data tail size).sb = I.sb := rfl

/-- The loop starts with its table. -/
@[simp] theorem loopState_dt : (loopState I inode pos data tail size).dt = I.dt := rfl

/-- The loop starts with the inode. -/
@[simp] theorem loopState_inode : (loopState I inode pos data tail size).inode = inode := rfl

/-- The loop starts at the position. -/
@[simp] theorem loopState_fdPosition :
    (loopState I inode pos data tail size).fdPosition = pos := rfl

/-- What is not left to write was written. -/
@[simp] theorem loopState_totalWritten :
    (loopState I inode pos data tail size).totalWritten = size - data.length := rfl

end LoopState

/-! ### The epilogue -/

/-- An inode that is stored as it is changes nothing. -/
theorem setInode_same {inode : Inode} (h : I.inodes inode.id = some inode) :
    I.setInode inode = I := by
  simp only [Image.setInode]
  congr 1
  funext x
  by_cases hx : x = inode.id
  · rw [if_pos hx, hx, h]
  · rw [if_neg hx]

/-- **The epilogue** stores the position, and then the superblock. -/
theorem Image.Ok.run_storeAll (h : I.Ok) (hi : Taken I.sb.reservedInodesMask i) {inode : Inode}
    (hget : I.inodes i = some inode) (s : WriteState) (hsb : s.sb = I.sb) (hdt : s.dt = I.dt)
    (hinode : s.inode = inode) :
    (storeAll fd s).run hostHandler ⟨I.onDisk B, F, loopLive, T⟩ =
      (.done (), ⟨(I.setPosition fd s.fdPosition).store, F, [],
        (I.setPosition fd s.fdPosition).store :: (I.setPosition fd s.fdPosition).onDisk B ::
          (I.setPosition fd s.fdPosition).onDisk B :: T⟩) := by
  have hok := h.layout.inodeOk hi hget
  have hg := h.layout.geometry
  have hid : inode.id < 128 := by
    rw [hok.id_eq, ← h.layout.inodesLength]
    exact hi.lt_length
  generalize hdt' : { I.dt with fdToPosition := I.dt.fdToPosition.set fd s.fdPosition } = dt
  have hJ : I.setPosition fd s.fdPosition = I.setTable dt := by rw [← hdt']; rfl
  have htable := run_writeDescriptorTable (S := I.onDisk B) (B := I.sb) (F := F) (L := loopLive)
    (T := T) dt hg (by simp [loopLive]) (by simp [loopLive]) (by simp [loopLive])
  have hinodeW := run_writeInode (S := (I.setTable dt).onDisk B) (B := I.sb) (F := F)
    (h := .inode) (L := [.inode, .superblock, .image]) (T := (I.setTable dt).onDisk B :: T) hid hg
    (by simp) (by simp) (by simp)
  have hsame : ((I.setTable dt).onDisk B).setInode inode = (I.setTable dt).onDisk B := by
    have hget' : (I.setTable dt).inodes inode.id = some inode := by
      rw [hok.id_eq]
      exact hget
    rw [Image.store_setInode, setInode_same hget']
  rw [hsame] at hinodeW
  have hsuper := run_writeSuperBlock (S := (I.setTable dt).onDisk B) (B := I.sb) (F := F)
    (L := [.superblock, .image])
    (T := (I.setTable dt).onDisk B :: (I.setTable dt).onDisk B :: T) hg (by simp) (by simp)
  have hlive : loopLive.erase .descriptorsTable = [.inode, .superblock, .image] := by decide
  have hmem : Handle.descriptorsTable ∈ loopLive := by simp [loopLive]
  have hdisk : (⟨some B, some dt, I.inodes, I.slots⟩ : Store) = (I.setTable dt).onDisk B := rfl
  have hstore : (⟨some I.sb, some dt, I.inodes, I.slots⟩ : Store) = (I.setTable dt).store := rfl
  simp only [storeAll, Prog.run_bind, run_use hmem, follow_done, hsb, hdt, hdt', hinode, htable,
    Image.onDisk_superblock, Image.onDisk_inodes, Image.onDisk_slots, hdisk,
    Bool.not_true, Bool.false_eq_true, if_false, run_release hmem, hlive, hinodeW,
    run_release (List.mem_cons_self ..), List.erase_cons_head, hsuper, run_leave, hJ]
  rfl

/-! ### A turn -/

section Turn

variable {inode : Inode} {pos : Nat} {data tail : List UInt8}

/-- What a turn copies, in the words of the loop. -/
theorem turn_piece (data tail : List UInt8) (room : Nat) :
    (if data.length < room then data.length else room) = (data.take room).length ∧
      (data ++ tail).take (data.take room).length = data.take room ∧
      (data ++ tail).drop (data.take room).length = data.drop room ++ tail := by
  by_cases hlt : data.length < room
  · rw [if_pos hlt, List.take_of_length_le hlt.le, List.drop_of_length_le hlt.le]
    exact ⟨rfl, List.take_left, List.drop_left⟩
  · have hle := Nat.not_lt.mp hlt
    rw [if_neg hlt, List.length_take, Nat.min_eq_left hle, List.take_append_of_le_length hle,
      List.drop_append_of_le_length hle]
    exact ⟨rfl, rfl, rfl⟩

/-- What a turn makes of a block in memory. -/
def filledBlock (block : Block) (pos : Nat) (data : List UInt8) : Block :=
  { block with
    info := { block.info with dataSize := pos % 121 + (data.take (121 - pos % 121)).length }
    data := memcpy block.data (pos % 121) (data.take (121 - pos % 121)) }

/-- A piece of something is not empty. -/
theorem piece_ne (pos : Nat) (hd : data ≠ []) : (data.take (121 - pos % 121)).length ≠ 0 := by
  rw [List.length_take]
  have := List.length_pos_iff.mpr hd
  omega

/-- **The second half of a turn**: the block is stored, or rejected after its header was. -/
theorem run_fillBlock (hg : I.sb.fsInfo = defaultFsInfo) (hlen : data.length ≤ size)
    (hsize : size ≤ 968) (hpos : pos ≤ 1936) {block : Block} (hdata : 121 ≤ block.data.length)
    (stored : Bool) {S : Store}
    (hwrite : (I.onDisk B).writeBlock defaultFsInfo (filledBlock block pos data) =
      (.done (if stored then .stored else .rejected), S)) :
    (fillBlock (loopState I inode pos data tail size) block).run hostHandler
        ⟨I.onDisk B, F, .block :: loopLive, T⟩ =
      if stored then
        (.done ⟨I.sb, I.dt, inode, pos + (data.take (121 - pos % 121)).length,
          data.drop (121 - pos % 121) ++ tail, size - (data.drop (121 - pos % 121)).length,
          (data.drop (121 - pos % 121)).length⟩, ⟨S, F, loopLive, S :: T⟩)
      else (.halted .exit, ⟨S, F, [.descriptorsTable], S :: T⟩) := by
  obtain ⟨hn, htake, hdrop⟩ := turn_piece data tail (121 - pos % 121)
  have hfit := Image.piece_fits pos data
  have hle : (data.take (121 - pos % 121)).length ≤ data.length := List.length_take_le' ..
  have hrest : (data.drop (121 - pos % 121)).length =
      data.length - (data.take (121 - pos % 121)).length := by
    rw [List.length_drop, List.length_take]
    omega
  -- no size and no position is narrowed
  have h16 : (pos % 121 + (data.take (121 - pos % 121)).length) % 2 ^ 16 =
      pos % 121 + (data.take (121 - pos % 121)).length := Nat.mod_eq_of_lt (by omega)
  have h32 : (pos + (data.take (121 - pos % 121)).length) % 2 ^ 32 =
      pos + (data.take (121 - pos % 121)).length := Nat.mod_eq_of_lt (by omega)
  have hroom : ¬ (block.data.length < pos % 121 + (data.take (121 - pos % 121)).length ∨
      (data ++ tail).length < (data.take (121 - pos % 121)).length) := by
    rw [List.length_append]
    omega
  have htotal : size - data.length + (data.take (121 - pos % 121)).length =
      size - (data.length - (data.take (121 - pos % 121)).length) := by omega
  have hrun := run_writeBlock (B := I.sb) (F := F) (h := .block) (L := .block :: loopLive)
    (T := T) hwrite (by cases stored <;> decide) hg (by simp [loopLive]) (by simp [loopLive])
    (by simp)
  have hblock : (⟨{ block.info with
      dataSize := pos % 121 + (data.take (121 - pos % 121)).length }, block.records,
      memcpy block.data (pos % 121) (data.take (121 - pos % 121))⟩ : Block) =
        filledBlock block pos data := rfl
  simp only [fillBlock, loopState, hg, getMaxDataInBlock_default, Prog.run_bind,
    run_use (List.mem_cons_self ..), follow_done, hn, hroom, if_false, h16, h32, htake, hdrop,
    hblock, hrun]
  cases stored
  · simp [exitReleased, loopLive, leave, Prog.run_bind]
  · simp only [if_true, decide_true, Bool.not_true, Bool.false_eq_true, if_false, Prog.run_bind,
      Prog.run_pure, follow_done, run_release (List.mem_cons_self ..), List.erase_cons_head, hrest,
      htotal]

/-- A turn on a data block. -/
theorem run_fillBlock_data (hg : I.sb.fsInfo = defaultFsInfo) (hlen : data.length ≤ size)
    (hsize : size ≤ 968) (hd : data ≠ []) (hpos : pos ≤ 1936) {block : Block}
    (hb : block.info.blockId < 128) (hrec : block.records = none)
    (hcount : block.info.recordsCount = 0) (hdata : 121 ≤ block.data.length) {J : Image}
    (hJ : J = I.setSlot block.info.blockId ⟨(filledBlock block pos data).info,
      .data ((filledBlock block pos data).data.take 121)⟩) :
    (fillBlock (loopState I inode pos data tail size) block).run hostHandler
        ⟨I.onDisk B, F, .block :: loopLive, T⟩ =
      (.done (loopState J inode (pos + (data.take (121 - pos % 121)).length)
          (data.drop (121 - pos % 121)) tail size),
        ⟨J.onDisk B, F, loopLive, J.onDisk B :: T⟩) := by
  have hpiece := piece_ne pos hd
  have hfit := Image.piece_fits pos data
  have hwrite := @writeBlock_data (I.onDisk B) (filledBlock block pos data) hb hrec hcount
    (by simpa [filledBlock] using fun _ => hpiece)
    (by rw [filledBlock, Image.length_memcpy (by omega)]; exact hdata)
  have hdisk : (I.onDisk B).setSlot (filledBlock block pos data).info.blockId
      ⟨(filledBlock block pos data).info, .data ((filledBlock block pos data).data.take 121)⟩ =
        J.onDisk B := by
    rw [hJ]
    rfl
  rw [hdisk] at hwrite
  rw [run_fillBlock hg hlen hsize hpos hdata true hwrite, if_pos rfl, hJ]
  rfl

/-- A turn on the first block of a directory. -/
theorem run_fillBlock_mixed (hg : I.sb.fsInfo = defaultFsInfo) (hlen : data.length ≤ size)
    (hsize : size ≤ 968) (hd : data ≠ []) (hpos : pos ≤ 1936) {block : Block} {s : Slot}
    (hs : I.slots block.info.blockId = some s) (hinfo : block.info = s.info)
    (hb : block.info.blockId < 128) (hcount : s.info.recordsCount ≠ 0)
    (hdata : 121 ≤ block.data.length) {J : Image}
    (hJ : J = I.setSlot block.info.blockId ⟨(filledBlock block pos data).info, s.body⟩) :
    (fillBlock (loopState I inode pos data tail size) block).run hostHandler
        ⟨I.onDisk B, F, .block :: loopLive, T⟩ =
      (.halted .exit, ⟨J.onDisk B, F, [.descriptorsTable], J.onDisk B :: T⟩) := by
  have hpiece := piece_ne pos hd
  have hwrite := @writeBlock_mixed (I.onDisk B) (filledBlock block pos data) hb
    (by simpa [filledBlock, hinfo] using hcount) (by simpa [filledBlock] using fun _ => hpiece)
  have hheader : (I.onDisk B).headerWritten (filledBlock block pos data) = J.onDisk B := by
    have hslot : (I.onDisk B).slots (filledBlock block pos data).info.blockId = some s := hs
    rw [Store.headerWritten, hslot, hJ]
    rfl
  rw [hheader] at hwrite
  rw [run_fillBlock hg hlen hsize hpos hdata false hwrite, if_neg (by decide)]

/-- The block a turn patches, as the image records it. -/
theorem filledBlock_read {b : Nat} {s : Slot} (hs : s.IsData) (hb : s.info.blockId = b) :
    I.setSlot b (s.fill (pos % 121) (data.take (121 - pos % 121))) =
      I.setSlot s.info.blockId ⟨(filledBlock ⟨s.info, none, s.buffer⟩ pos data).info,
        .data ((filledBlock ⟨s.info, none, s.buffer⟩ pos data).data.take 121)⟩ := by
  have hlen := Image.length_buffer hs
  have hfit := Image.piece_fits pos data
  have hfull : (memcpy s.buffer (pos % 121) (data.take (121 - pos % 121))).take 121 =
      memcpy s.buffer (pos % 121) (data.take (121 - pos % 121)) := by
    refine List.take_of_length_le ?_
    rw [Image.length_memcpy (by omega), hlen]
  subst hb
  simp only [filledBlock, hfull]
  rfl

/-- The block a turn appends: its buffer is larger than a body, and is cut. -/
theorem filledBlock_fresh (i b : Nat) :
    I.setSlot b (Image.appendedSlot i b (pos % 121) (data.take (121 - pos % 121))) =
      I.setSlot b ⟨(filledBlock ⟨⟨b, i, 0, 0⟩, none, List.replicate 128 0⟩ pos data).info,
        .data ((filledBlock ⟨⟨b, i, 0, 0⟩, none, List.replicate 128 0⟩ pos data).data.take
          121)⟩ := by
  have hfit := Image.piece_fits pos data
  generalize hp : data.take (121 - pos % 121) = piece at hfit
  have hcut : (memcpy (List.replicate 128 0) (pos % 121) piece).take 121 =
      memcpy (List.replicate 121 0) (pos % 121) piece := by
    simp only [memcpy, List.take_replicate, List.drop_replicate]
    rw [List.take_append, List.take_of_length_le (by simp; omega), List.take_replicate]
    simp only [List.length_append, List.length_replicate]
    congr 2
    · congr 1
      omega
    · omega
  simp only [filledBlock, hp, hcut]
  rfl

/-- **The append**: the inode is stored with the new block. -/
theorem run_appendBlock (hg : I.sb.fsInfo = defaultFsInfo) {b : Nat}
    (hid : inode.id < 128) (hlen : inode.blockIds.length = 8) (hcount : inode.blocksCount < 8) :
    (appendBlock (loopState (I.takeBlock b) inode pos data tail size) i b).run hostHandler
        ⟨I.onDisk B, F, loopLive, T⟩ =
      (.done (loopState ((I.takeBlock b).setInode (Image.grown inode b)) (Image.grown inode b) pos
          data tail size, ⟨⟨b, i, 0, 0⟩, none, List.replicate 128 0⟩),
        ⟨((I.takeBlock b).setInode (Image.grown inode b)).onDisk B, F, .block :: loopLive,
          ((I.takeBlock b).setInode (Image.grown inode b)).onDisk B :: T⟩) := by
  obtain ⟨x, hx⟩ : ∃ x, inode.blockIds[inode.blocksCount]? = some x :=
    ⟨_, List.getElem?_eq_getElem (by omega)⟩
  have hmod : (inode.blocksCount + 1) % 2 ^ 16 = inode.blocksCount + 1 :=
    Nat.mod_eq_of_lt (by omega)
  have hgrown : (⟨inode.id, inode.blocksCount + 1, inode.isFile,
      inode.blockIds.set inode.blocksCount b⟩ : Inode) = Image.grown inode b := rfl
  have hidG : (Image.grown inode b).id < 128 := hid
  have hgT : (I.takeBlock b).sb.fsInfo = defaultFsInfo := hg
  have hwrite := run_writeInode (S := I.onDisk B) (B := (I.takeBlock b).sb) (F := F) (h := .inode)
    (L := .block :: loopLive) (T := T) hidG hgT (by simp [loopLive]) (by simp [loopLive])
    (by simp [loopLive])
  simp only [appendBlock, loopState, Prog.run_bind, run_acquire, follow_done, run_index_some hx,
    hmod, hgrown, hwrite, Bool.not_true, Bool.false_eq_true, if_false, Prog.run_pure, hgT]
  rfl

end Turn

/-! ### The loop -/

/-- What a run of the loop gives back, for the end `r` of the relation. -/
def LoopEnds (fd i size : Nat) (tail : List UInt8) (B : Superblock) (F : HostFiles)
    (T : List Store) (r : Image.WriteEnd) (end_ : Outcome Stop WriteState × Machine) : Prop :=
  match r.ending with
  | .complete => ∃ inode, r.image.inodes i = some inode ∧
      end_ = (.done (loopState r.image inode r.pos [] tail size),
        ⟨r.image.onDisk B, F, loopLive, (r.trace.map (·.onDisk B)).reverse ++ T⟩)
  | .exhausted => ∃ s, end_ = (.done s, ⟨(r.image.setPosition fd r.pos).store, F, [],
      (r.image.setPosition fd r.pos).store :: (r.image.setPosition fd r.pos).onDisk B ::
        (r.image.setPosition fd r.pos).onDisk B :: ((r.trace.map (·.onDisk B)).reverse ++ T)⟩)
  | .rejected e => ∃ L', end_ = (.halted e,
      ⟨r.image.onDisk B, F, L', (r.trace.map (·.onDisk B)).reverse ++ T⟩)

/-- A turn in front of a run of the loop. -/
theorem LoopEnds.after {tail : List UInt8} {r : Image.WriteEnd} (Js : List Image)
    {end_ : Outcome Stop WriteState × Machine}
    (h : LoopEnds fd i size tail B F ((Js.map (·.onDisk B)).reverse ++ T) r end_) :
    LoopEnds fd i size tail B F T (r.after Js) end_ := by
  simp only [LoopEnds, Image.WriteEnd.after, List.map_append, List.reverse_append,
    List.append_assoc] at h ⊢
  exact h

/-- What a turn with data left finds: the record of the inode, fuel, and its guards. -/
theorem turn_cases (h : I.Ok) (hi : Taken I.sb.reservedInodesMask i) {inode inode' : Inode}
    (hget : I.inodes i = some inode) (hget' : I.inodes i = some inode') {pos : Nat}
    (hpos : pos ≤ 968 + 121 * inode.blocksCount) {data : List UInt8} (hd : data ≠ [])
    (hlen : data.length ≤ size) {fuel : Nat} (hfuel : data.length ≤ fuel) :
    inode' = inode ∧ I.InodeOk i inode ∧ inode.id < 128 ∧ (∃ n, fuel = n + 1) ∧ pos ≤ 1936 ∧
      ¬ size - data.length = size ∧ pos % 2 ^ 16 / 121 % 2 ^ 16 = pos / 121 := by
  obtain ⟨inode₀, hget₀, hok⟩ := h.layout.inode hi
  rw [hget] at hget₀ hget'
  cases hget₀
  cases hget'
  have hlt := hi.lt_length
  rw [h.layout.inodesLength] at hlt
  have := List.length_pos_iff.mpr hd
  have := hok.count_le
  refine ⟨rfl, hok, hok.id_eq ▸ hlt, ⟨fuel - 1, by omega⟩, by omega, by omega, ?_⟩
  rw [Nat.mod_eq_of_lt (by omega : pos < 2 ^ 16), Nat.mod_eq_of_lt]
  omega

section OneTurn

variable {inode : Inode} {pos fuel : Nat} {data : List UInt8} (tail : List UInt8)
  (hg : I.sb.fsInfo = defaultFsInfo) (hturn : ¬ size - data.length = size)
  (hmod : pos % 2 ^ 16 / 121 % 2 ^ 16 = pos / 121)

include hg hturn hmod

/-- A turn on a block the inode lists. -/
theorem run_turn_listed (hk : pos / 121 < inode.blocksCount) {b : Nat}
    (hb : inode.blockIds[pos / 121]? = some b) {block : Block}
    (hread : (I.onDisk B).readBlock defaultFsInfo b = .done (.read block)) :
    (writeLoop fd i size (fuel + 1) (loopState I inode pos data tail size)).run hostHandler
        ⟨I.onDisk B, F, loopLive, T⟩ =
      follow ((fillBlock (loopState I inode pos data tail size) block).run hostHandler
          ⟨I.onDisk B, F, .block :: loopLive, T⟩)
        fun s m => (writeLoop fd i size fuel s).run hostHandler m := by
  have hread := run_readBlock (B := I.sb) (F := F) (L := loopLive) (T := T) (h := .block) hread hg
    (by simp [loopLive]) (by simp [loopLive])
  simp only [writeLoop, loopState_totalWritten, hturn, if_false, Prog.run_bind, loopState_sb,
    run_use (show Handle.superblock ∈ loopLive by simp [loopLive]), follow_done,
    run_use (show Handle.inode ∈ loopLive by simp [loopLive]), hg, getMaxDataInBlock_default,
    show ¬ 121 = 0 by decide, loopState_fdPosition, hmod, loopState_inode, hk, if_true,
    run_index_some hb, hread]

/-- A turn on a block that counts both records and data. -/
theorem run_turn_mixed (hk : pos / 121 < inode.blocksCount) {b : Nat}
    (hb : inode.blockIds[pos / 121]? = some b)
    (hread : (I.onDisk B).readBlock defaultFsInfo b = .done .mixed) :
    (writeLoop fd i size (fuel + 1) (loopState I inode pos data tail size)).run hostHandler
        ⟨I.onDisk B, F, loopLive, T⟩ = (.halted .memoryError, ⟨I.onDisk B, F, loopLive, T⟩) := by
  have hread := run_readBlock_mixed (B := I.sb) (F := F) (L := loopLive) (T := T) (h := .block)
    hread hg (by simp [loopLive]) (by simp [loopLive])
  simp only [writeLoop, loopState_totalWritten, hturn, if_false, Prog.run_bind, loopState_sb,
    run_use (show Handle.superblock ∈ loopLive by simp [loopLive]), follow_done,
    run_use (show Handle.inode ∈ loopLive by simp [loopLive]), hg, getMaxDataInBlock_default,
    show ¬ 121 = 0 by decide, loopState_fdPosition, hmod, loopState_inode, hk, if_true,
    run_index_some hb, hread, follow_halted]

/-- A turn past the list of the inode. -/
theorem run_turn_past (hk : inode.blocksCount ≤ pos / 121)
    (hlen : I.sb.reservedBlocksMask.length = 128) :
    (writeLoop fd i size (fuel + 1) (loopState I inode pos data tail size)).run hostHandler
        ⟨I.onDisk B, F, loopLive, T⟩ =
      match firstFree I.sb.reservedBlocksMask with
      | none =>
        ((do storeAll fd (loopState I inode pos data tail size)
             return loopState I inode pos data tail size) : ExtProg WriteState).run hostHandler
          ⟨I.onDisk B, F, loopLive, T⟩
      | some b =>
        if inode.blocksCount = 8 then
          ((do storeAll fd (loopState (I.takeBlock b) inode pos data tail size)
               return loopState (I.takeBlock b) inode pos data tail size) :
              ExtProg WriteState).run hostHandler ⟨I.onDisk B, F, loopLive, T⟩
        else
          follow ((appendBlock (loopState (I.takeBlock b) inode pos data tail size) i b).run
              hostHandler ⟨I.onDisk B, F, loopLive, T⟩)
            fun r m => follow ((fillBlock r.1 r.2).run hostHandler m)
              fun s m => (writeLoop fd i size fuel s).run hostHandler m := by
  have hsb : Handle.superblock ∈ loopLive := by simp [loopLive]
  have hin : Handle.inode ∈ loopLive := by simp [loopLive]
  simp only [writeLoop, loopState_totalWritten, hturn, if_false, Prog.run_bind, loopState_sb,
    run_use hsb, run_use hin, follow_done, hg, getMaxDataInBlock_default,
    show ¬ 121 = 0 by decide, loopState_fdPosition, hmod, loopState_inode, Nat.not_lt.mpr hk]
  -- no free block, or a free block for a list that is full or not
  rcases hb : firstFree I.sb.reservedBlocksMask with _ | b
  · simp only [reserveBlock, hb, hg, if_true, Prog.run_bind]
    rfl
  · have hb128 : b ≠ 128 := by
      have := (firstFree_eq_some_iff.mp hb).1
      omega
    have hreserve : reserveBlock I.sb = (b, (I.takeBlock b).sb) := by
      simp only [reserveBlock, hb]
      rfl
    have hgT : (I.takeBlock b).sb.fsInfo = defaultFsInfo := hg
    simp only [hreserve, hgT, defaultFsInfo_blocksCount, hb128, if_false,
      defaultFsInfo_blocksCountInInode]
    by_cases hcount : inode.blocksCount = 8
    · simp only [hcount, if_true, Prog.run_bind]
      rfl
    · simp only [hcount, if_false, Prog.run_bind]
      rfl

end OneTurn

variable (fd) in
/-- **The loop** follows the relation. -/
theorem run_writeLoop {pos : Nat} {data : List UInt8} {r : Image.WriteEnd}
    (hrun : Image.WriteRun i I pos data r) (h : I.Ok) (hi : Taken I.sb.reservedInodesMask i)
    {inode : Inode} (hget : I.inodes i = some inode) (hpos : pos ≤ 968 + 121 * inode.blocksCount)
    (hsize : size ≤ 968) (hlen : data.length ≤ size) (tail : List UInt8) (fuel : Nat)
    (hfuel : data.length ≤ fuel) :
    LoopEnds fd i size tail B F T r ((writeLoop fd i size fuel
      (loopState I inode pos data tail size)).run hostHandler
        ⟨I.onDisk B, F, loopLive, T⟩) := by
  have hg := h.layout.geometry
  -- by induction on the run: a turn of the loop is a step of it
  induction hrun generalizing inode T fuel with
  | done I pos =>
    refine ⟨inode, hget, ?_⟩
    cases fuel <;> simp [writeLoop, loopState]
  | @patch I pos b data inode₁ s r hd hget₁ hk hblock hs next ih =>
    -- the block takes its piece, and the loop goes on behind it
    obtain ⟨rfl, hok, _, ⟨fuel, rfl⟩, hpos', hturn, hmod⟩ :=
      turn_cases h hi hget hget₁ hpos hd hlen hfuel
    obtain ⟨hdata, _, hb, hslot, hh⟩ := hok.data_block hget hk hblock hs
    have hfit := Image.piece_fits pos data
    have hrest := Image.length_rest_lt pos hd
    have hb128 : s.info.blockId < 128 := by
      rw [hh.blockId_eq, ← h.layout.blocksLength]
      exact (hok.block hk hb).1.lt_length
    have hfull : 121 ≤ s.buffer.length := (Image.length_buffer hdata).ge
    rw [run_turn_listed tail hg hturn hmod hk hb (readBlock_data (S := I.onDisk B) hslot hdata),
      run_fillBlock_data hg hlen hsize hd hpos' hb128 rfl hs hfull
      (filledBlock_read hdata hh.blockId_eq), follow_done]
    refine LoopEnds.after _ (ih (h.patch hi hget hk hblock hs hfit) hi hget ?_ ?_ fuel ?_ hg)
    · have := hok.count_le
      omega
    · omega
    · omega
  | @spoil I pos b data inode₁ s hd hget₁ hk hblock hs hz =>
    -- the block counts records and now data too: the write of it destructs it, and so does the loop
    obtain ⟨rfl, hok, _, ⟨fuel, rfl⟩, hpos', hturn, hmod⟩ :=
      turn_cases h hi hget hget₁ hpos hd hlen hfuel
    obtain ⟨hrec, _, _, hb, hslot, hh⟩ := hok.records_block hget hk hblock hs
    have hb128 : s.info.blockId < 128 := by
      rw [hh.blockId_eq, ← h.layout.blocksLength]
      exact (hok.block hk hb).1.lt_length
    have hslot' : I.slots s.info.blockId = some s := hh.blockId_eq.symm ▸ hslot
    have hread := readBlock_records (S := I.onDisk B) hslot hrec fun hm => hm.2 hz
    rw [run_turn_listed tail hg hturn hmod hk hb hread,
      run_fillBlock_mixed hg hlen hsize hd hpos' hslot' rfl hb128 hs
        (List.length_replicate ..).ge rfl,
      follow_halted, hh.blockId_eq]
    exact ⟨_, rfl⟩
  | @reject I pos b data inode₁ s hd hget₁ hk hblock hs =>
    -- `read_block` crashes on a block that counts both
    obtain ⟨rfl, hok, _, ⟨fuel, rfl⟩, hpos', hturn, hmod⟩ :=
      turn_cases h hi hget hget₁ hpos hd hlen hfuel
    obtain ⟨-, -, -, hb, hslot, -⟩ := hok.records_block hget hk hblock hs.1
    rw [run_turn_mixed tail hg hturn hmod hk hb (readBlock_mixed (S := I.onDisk B) hslot hs)]
    exact ⟨loopLive, rfl⟩
  | @noBlock I pos data inode₁ hd hget₁ hk hb =>
    -- everything is stored as it is
    obtain ⟨rfl, hok, _, ⟨fuel, rfl⟩, hpos', hturn, hmod⟩ :=
      turn_cases h hi hget hget₁ hpos hd hlen hfuel
    rw [run_turn_past tail hg hturn hmod hk h.layout.blocksLength, hb]
    simp only
    rw [Prog.run_bind, h.run_storeAll hi hget (loopState I inode₁ pos data tail size) rfl rfl rfl,
      follow_done]
    exact ⟨_, rfl⟩
  | @noEntry I pos b data inode₁ hd hget₁ hk hb hcount =>
    -- the block that was reserved stays reserved
    obtain ⟨rfl, hok, _, ⟨fuel, rfl⟩, hpos', hturn, hmod⟩ :=
      turn_cases h hi hget hget₁ hpos hd hlen hfuel
    have hdisk : I.onDisk B = (I.takeBlock b).onDisk B := rfl
    rw [run_turn_past tail hg hturn hmod hk h.layout.blocksLength, hb]
    simp only
    rw [if_pos hcount, hdisk, Prog.run_bind, (h.takeBlock hb).run_storeAll hi hget
      (loopState (I.takeBlock b) inode₁ pos data tail size) rfl rfl rfl, follow_done]
    exact ⟨_, rfl⟩
  | @append I pos b data inode₁ r hd hget₁ hk hb hcount next ih =>
    -- the inode in memory lists the new block
    obtain ⟨rfl, hok, hid, ⟨fuel, rfl⟩, hpos', hturn, hmod⟩ :=
      turn_cases h hi hget hget₁ hpos hd hlen hfuel
    have hfit := Image.piece_fits pos data
    have hrest := Image.length_rest_lt pos hd
    have hb128 : b < 128 := h.layout.blocksLength ▸ (firstFree_eq_some_iff.mp hb).1
    have hgrown : ((I.takeBlock b).setInode (Image.grown inode₁ b)).inodes i =
        some (Image.grown inode₁ b) := Image.setInode_grown hok.id_eq _
    have hlt : inode₁.blocksCount < 8 := lt_of_le_of_ne hok.count_le hcount
    rw [run_turn_past tail hg hturn hmod hk h.layout.blocksLength, hb]
    simp only
    have hgK : ((I.takeBlock b).setInode (Image.grown inode₁ b)).sb.fsInfo = defaultFsInfo := hg
    rw [if_neg hcount, run_appendBlock hg hid hok.length_eq hlt, follow_done]
    simp only
    rw [run_fillBlock_data hgK hlen hsize hd hpos' hb128 rfl rfl (by simp) (filledBlock_fresh i b),
      follow_done]
    refine LoopEnds.after _ (ih (h.append hi hget hcount hb hfit) hi hgrown ?_ ?_ fuel ?_ hg)
    · simp only [Image.grown]
      omega
    · omega
    · omega

/-! ### The command -/

namespace Image.Ok

/-- What `write` does: nothing, or the loop on the inode of its descriptor. -/
theorem write_cases (h : I.Ok) (fd : Nat) (data : List UInt8) :
    (I.dt.reservedFd[fd]? = none ∧ I.write fd data = ⟨.halted .memoryError, I.store, []⟩ ∧
      I.written fd data = I) ∨
    (I.dt.reservedFd[fd]? = some false ∧ I.write fd data = ⟨.done none, I.store, []⟩ ∧
      I.written fd data = I) ∨
      ∃ i pos r, I.dt.reservedFd[fd]? = some true ∧ I.dt.fdToInode[fd]? = some i ∧
        I.dt.fdToPosition[fd]? = some pos ∧ WriteRun i I pos (data.take 968) r ∧
        I.write fd data = finishWrite I.sb fd (data.take 968).length r ∧
        I.written fd data = r.settled fd := by
  unfold write written
  rcases hres : I.dt.reservedFd[fd]? with _ | reserved
  · exact Or.inl ⟨rfl, rfl, rfl⟩
  have hfd : fd < 16 := by
    rw [← h.table.fdLength]
    exact (List.getElem?_eq_some_iff.mp hres).1
  cases reserved
  · exact Or.inr (Or.inl ⟨rfl, rfl, rfl⟩)
  · have hi := List.getElem?_eq_getElem (h.table.inodeLength.symm ▸ hfd)
    obtain ⟨pos, hpos⟩ : ∃ pos, I.dt.fdToPosition[fd]? = some pos :=
      ⟨_, List.getElem?_eq_getElem (h.table.positionLength.symm ▸ hfd)⟩
    have hrun := h.writeRun (h.descriptor hres hi).1 _ pos (data.take 968) (Nat.le_refl _)
    exact Or.inr (Or.inr ⟨_, _, _, rfl, hi, hpos, hrun, by simp only [hi, hpos],
      by simp only [hi, hpos]⟩)

/-- **`write`** computes `Image.write`, host write by host write. -/
theorem run_writeToFile (h : I.Ok) (fd : Nat) (data : List UInt8) :
    ∃ L', (writeToFile fd data).run hostHandler ⟨I.store, F, [], []⟩ =
      ((I.write fd data).outcome, ⟨(I.write fd data).store, F, L', (I.write fd data).trace.reverse⟩)
      := by
  have hg := h.layout.geometry
  have hread := run_readDescriptorsTable (S := I.store) (B := I.sb) (F := F)
    (L := [.superblock, .image]) (T := []) rfl hg (by simp) (by simp)
  simp only [writeToFile, Prog.run_bind, h.run_enter, follow_done, hg,
    getMaxDataSizeOfAllBlocks_default, hread, run_use (List.mem_cons_self ..)]
  -- past the table, on a free descriptor, on an open one
  rcases h.write_cases fd data with ⟨hres, heq, _⟩ | ⟨hres, heq, _⟩ |
    ⟨i, pos, r, hres, hi, hpos, hrun, heq, _⟩
  · refine ⟨[.descriptorsTable, .superblock, .image], ?_⟩
    rw [run_index_none hres, heq]
    rfl
  · refine ⟨[], ?_⟩
    rw [run_index_some hres, heq]
    simp [Prog.run_bind]
  · obtain ⟨hres', _⟩ := h.descriptor hres hi
    obtain ⟨inode, hget, hok⟩ := h.layout.inode hres'
    have hinode := run_readInode (S := I.store) (B := I.sb) (F := F) (h := .inode)
      (L := [.descriptorsTable, .superblock, .image]) (T := []) hget hg (by simp) (by simp)
    have hsize : min data.length 968 = (data.take 968).length := by
      rw [List.length_take, Nat.min_comm]
    -- the state the loop starts in is the one of the run
    have hstate : (⟨I.sb, I.dt, inode, pos, data, 0, (data.take 968).length⟩ : WriteState) =
        loopState I inode pos (data.take 968) (data.drop 968) (data.take 968).length := by
      simp only [loopState, List.take_append_drop, Nat.sub_self]
    have hloop := run_writeLoop fd (B := I.sb) (F := F) (T := []) hrun h hres' hget
      (h.table.position_le ⟨hres, hi, hpos⟩ hget) (by rw [List.length_take]; omega) (Nat.le_refl _)
      (data.drop 968) _ (Nat.le_refl _)
    have hlive : [.inode, .descriptorsTable, .superblock, .image] = loopLive := rfl
    rw [run_index_some hres]
    simp only [follow_done, Bool.not_true, Bool.false_eq_true, if_false, Prog.run_bind,
      run_index_some hpos, run_index_some hi, hinode, hsize, hstate, heq, hlive]
    have hJ := hrun.ok h hres' (h.descriptor hres hi).2
    have hiJ : Taken r.image.sb.reservedInodesMask i := hrun.inodesMask ▸ hres'
    unfold LoopEnds at hloop
    -- the loop wrote everything, ran out of room, or halted
    rcases hend : r.ending with _ | _ | _ <;> rw [hend] at hloop
    · obtain ⟨inode', hget', hloop⟩ := hloop
      refine ⟨[], ?_⟩
      rw [Image.onDisk_sb] at hloop
      simp only [hloop, follow_done, hJ.run_storeAll hiJ hget' (loopState r.image inode' r.pos []
        (data.drop 968) (data.take 968).length) rfl rfl rfl, Prog.run_pure, finishWrite, hend]
      simp [loopState]
    · obtain ⟨s, hloop⟩ := hloop
      refine ⟨[], ?_⟩
      rw [Image.onDisk_sb] at hloop
      simp only [hloop, follow_done, storeAll, Prog.run_bind, run_use_dead List.not_mem_nil,
        follow_halted, finishWrite, hend]
      simp
    · obtain ⟨L', hloop⟩ := hloop
      refine ⟨L', ?_⟩
      rw [Image.onDisk_sb] at hloop
      simp only [hloop, follow_halted, finishWrite, hend]
      simp

/-- The image at the end of a write. -/
theorem write_store (h : I.Ok) (fd : Nat) (data : List UInt8) :
    (I.write fd data).store = (I.written fd data).store := by
  rcases h.write_cases fd data with ⟨_, heq, heq'⟩ | ⟨_, heq, heq'⟩ |
    ⟨i, pos, r, hres, hi, _, hrun, heq, heq'⟩
  · rw [heq, heq']
  · rw [heq, heq']
  · rw [heq, heq', finishWrite, WriteEnd.settled]
    rcases hend : r.ending with _ | _ | _
    · rfl
    · rfl
    · -- the superblock on disk is the one in memory
      rw [← hrun.rejected_sb h (h.descriptor hres hi).1 (by rw [hend]; rfl)]
      rfl

/-- The position after a loop is no further past the end of the file than the invariant allows. -/
theorem position_le (h : I.Ok) {fd i pos : Nat} (hent : I.dt.Entry fd i pos) {data : List UInt8}
    {r : WriteEnd} (hrun : WriteRun i I pos data r) {j : Nat} {inode : Inode}
    (hj : r.image.dt.fdToInode[fd]? = some j) (hget : r.image.inodes j = some inode) :
    r.pos ≤ 968 + 121 * inode.blocksCount := by
  obtain ⟨htaken, _⟩ := h.descriptor hent.reserved hent.refers
  obtain ⟨inode₀, hget₀, _⟩ := h.layout.inode htaken
  rw [hrun.dt, hent.refers] at hj
  cases hj
  obtain ⟨inode₁, hget₁, _, _, hbound⟩ := hrun.inode_grows h htaken hget₀
  rw [hget] at hget₁
  cases hget₁
  exact hbound (h.table.position_le hent hget₀)

/-- The image a loop on the inode of a descriptor leaves keeps the invariant. -/
theorem settled_ok (h : I.Ok) {fd i pos : Nat} (hent : I.dt.Entry fd i pos) {data : List UInt8}
    {r : WriteEnd} (hrun : WriteRun i I pos data r) : (r.settled fd).Ok := by
  obtain ⟨htaken, hroot⟩ := h.descriptor hent.reserved hent.refers
  have hJ := hrun.ok h htaken hroot
  unfold WriteEnd.settled
  split
  · exact hJ
  · exact hJ.setPosition fun j inode hj hget => h.position_le hent hrun hj hget

/-- **A write** keeps the invariant. -/
theorem written_ok (h : I.Ok) (fd : Nat) (data : List UInt8) : (I.written fd data).Ok := by
  rcases h.write_cases fd data with ⟨_, _, heq⟩ | ⟨_, _, heq⟩ |
    ⟨i, pos, r, hres, hi, hpos, hrun, _, heq⟩
  · rw [heq]
    exact h
  · rw [heq]
    exact h
  · rw [heq]
    exact h.settled_ok ⟨hres, hi, hpos⟩ hrun

end Image.Ok

end MiniExt
