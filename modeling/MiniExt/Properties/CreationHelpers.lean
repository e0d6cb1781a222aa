import Mathlib.Order.Bounds.Defs
import MiniExt.Core.Methods
import MiniExt.Disk.Runs

namespace MiniExt

open Lib

/-!
# The creation helpers

`create_dir_helper` and `create_file_helper` reserve an inode and a block, and then make three
writes that can fail.  Here each write ends as it likes, and the helpers have to leave the masks
as they were or take exactly the lowest free inode and the lowest free block.

* `Writes`, `answering` — how the three writes end, and the host that answers so;
* `Superblock.take` — the superblock with one inode and one block more reserved;
* `AllOrNothing` — what a helper may return;
* `answered_createHelper`, … — what the common body of the two helpers does, case by case;
* `creationHelpers_allOrNothing_iff` — the writes on which the helpers keep to it.
-/

/-! ### The answers -/

/-- How `write_block` ends: the block is stored, or the write of a record fails, or another
    write does. -/
inductive BlockWrite where
  | stored | failed | failedInRecord
  deriving DecidableEq, Repr

/-- How `write_block` ends then: it destructs a block that failed in one of its records. -/
def BlockWrite.result (block : Block) : BlockWrite → WriteBlockResult
  | .stored => .stored
  | .failed => .failed
  | .failedInRecord => if block.records.isSome then .destructed else .failed

/-- How `write_block`, `write_inode` and `write_super_block` end. -/
structure Writes where
  block : BlockWrite
  inode : Bool
  superblock : Bool
  deriving DecidableEq, Repr

/-- The live objects, and the inodes that were passed to `write_inode`. -/
structure HelperState where
  live : List Handle
  inodes : List Inode
  deriving DecidableEq, Repr

/-- The host that answers the writes this way.  A helper does not read. -/
def answering (W : Writes) : Handler host HelperState Stop
  | .acquire h, s => (.done (), { s with live := h :: s.live })
  | .use h, s => if h ∈ s.live then (.done (), s) else (.halted .memoryError, s)
  | .release h, s =>
    if h ∈ s.live then (.done (), { s with live := s.live.erase h }) else (.halted .memoryError, s)
  | .writeBlock _ block, s => (.done (W.block.result block), s)
  | .writeInode _ inode, s => (.done W.inode, { s with inodes := s.inodes ++ [inode] })
  | .writeSuperBlock _, s => (.done W.superblock, s)
  | _, s => (.halted .outside, s)

/-- The objects of a caller: the open image and the superblock, and not yet the new block. -/
structure CallerObjects (live : List Handle) : Prop where
  image : Handle.image ∈ live
  superblock : Handle.superblock ∈ live
  newBlock : Handle.newBlock ∉ live

/-! ### The specification -/

/-- The superblock with an inode and a block more reserved. -/
def Superblock.take (sb : Superblock) (n b : Nat) : Superblock :=
  { sb with
    reservedInodesMask := sb.reservedInodesMask.set n true
    reservedBlocksMask := sb.reservedBlocksMask.set b true }

/-- The lowest free slot of a mask. -/
def LowestFree (mask : List Bool) (i : Nat) : Prop := IsLeast { j | mask[j]? = some false } i

/-- A helper returned the inode `n` and left the superblock `sb'`: the inode and one block were
    the lowest that were free, they alone are reserved, and the inode lists just that block. -/
structure TakesBoth (sb sb' : Superblock) (n : Nat) (written : List Inode) : Prop where
  lt : n < sb.fsInfo.inodesCount
  inode : LowestFree sb.reservedInodesMask n
  block : ∃ b, LowestFree sb.reservedBlocksMask b ∧ sb' = sb.take n b ∧
    ∃ inode, written = [inode] ∧ inode.id = n ∧ inode.blockIds.take inode.blocksCount = [b]

/-- **All or nothing**: the helper returns, with `inodes_count` and the masks as they were, or
    with an inode and a block taken; what it returns was not reserved. -/
def AllOrNothing (W : Writes) (sb : Superblock) (live : List Handle)
    (helper : ExtProg (Nat × Superblock)) : Prop :=
  ∃ n sb' s, helper.run (answering W) ⟨live, []⟩ = (.done (n, sb'), s) ∧
    ((n = sb.fsInfo.inodesCount ∧ sb' = sb) ∨ TakesBoth sb sb' n s.inodes) ∧
    sb.reservedInodesMask[n]? ≠ some true

/-- An inode and a block are free. -/
def Superblock.HasSpace (sb : Superblock) : Prop :=
  false ∈ sb.reservedInodesMask ∧ false ∈ sb.reservedBlocksMask

/-! ### Masks -/

/-- First fit finds the lowest free bit. -/
theorem lowestFree_of_firstFree {mask : List Bool} {i : Nat} (h : firstFree mask = some i) :
    LowestFree mask i := by
  refine ⟨getElem?_firstFree h, ?_⟩
  intro j hj
  by_contra hlt
  have htaken : mask[j]? = some true :=
    (firstFree_eq_some_iff.mp h).2.2 j (Nat.lt_of_not_le hlt)
  rw [show mask[j]? = some false from hj] at htaken
  cases htaken

/-- It finds one where there is one. -/
theorem firstFree_isSome_iff {mask : List Bool} :
    (∃ i, firstFree mask = some i) ↔ false ∈ mask := by
  constructor
  · rintro ⟨i, hi⟩
    exact List.mem_of_getElem? (getElem?_firstFree hi)
  · intro hmem
    obtain ⟨i, hi⟩ := List.mem_iff_getElem?.mp hmem
    exact exists_firstFree hi

section Masks

variable {sb : Superblock} {n b : Nat}

/-- `reserve_inode` takes the first free inode. -/
theorem reserveInode_of_firstFree (hn : firstFree sb.reservedInodesMask = some n) :
    reserveInode sb = (n, { sb with reservedInodesMask := sb.reservedInodesMask.set n true }) := by
  unfold reserveInode
  rw [hn]

/-- `reserve_block` takes the first free block after it. -/
theorem reserveBlock_of_firstFree (hb : firstFree sb.reservedBlocksMask = some b) :
    reserveBlock { sb with reservedInodesMask := sb.reservedInodesMask.set n true } =
      (b, sb.take n b) := by
  unfold reserveBlock
  rw [hb]
  rfl

/-- Releasing the inode restores the superblock. -/
theorem freeInode_reserved (sb : Superblock) (hn : firstFree sb.reservedInodesMask = some n) :
    (freeInode { sb with reservedInodesMask := sb.reservedInodesMask.set n true } n).2 = sb := by
  have hlt : n < sb.reservedInodesMask.length := (firstFree_eq_some_iff.mp hn).1
  have hset : (sb.reservedInodesMask.set n true)[n]? = some true := List.getElem?_set_self hlt
  unfold freeInode
  rw [if_pos hset]
  dsimp only
  rw [set_true_set_false hn]

/-- Releasing the block restores the superblock. -/
theorem freeBlock_reserved (hb : firstFree sb.reservedBlocksMask = some b) :
    (freeBlock { sb with reservedBlocksMask := sb.reservedBlocksMask.set b true } b).2 = sb := by
  have hlt : b < sb.reservedBlocksMask.length := (firstFree_eq_some_iff.mp hb).1
  have hset : (sb.reservedBlocksMask.set b true)[b]? = some true := List.getElem?_set_self hlt
  unfold freeBlock
  rw [if_pos hset]
  dsimp only
  rw [set_true_set_false hb]

/-- **The rollback** restores the superblock. -/
theorem freeBlock_freeInode_take (hn : firstFree sb.reservedInodesMask = some n)
    (hb : firstFree sb.reservedBlocksMask = some b) :
    (freeBlock (freeInode (sb.take n b) n).2 b).2 = sb := by
  have hinode : (freeInode (sb.take n b) n).2 =
      { sb with reservedBlocksMask := sb.reservedBlocksMask.set b true } :=
    freeInode_reserved { sb with reservedBlocksMask := sb.reservedBlocksMask.set b true } hn
  rw [hinode, freeBlock_reserved hb]

end Masks

/-! ### Single calls -/

section Calls

variable {W : Writes} {live : List Handle} {inodes : List Inode} {h : Handle}

/-- A call is answered as the three writes have it. -/
theorem run_answering (c : HostCall) (s : HelperState) :
    (ask c).run (answering W) s = answering W c s :=
  Prog.run_perform (answering W) c s

/-- A live object is used. -/
theorem answered_use (hlive : h ∈ live) :
    (use h).run (answering W) ⟨live, inodes⟩ = (.done (), ⟨live, inodes⟩) :=
  (run_answering (.use h) _).trans (if_pos hlive)

/-- An object is acquired. -/
theorem answered_acquire (h : Handle) :
    (acquire h).run (answering W) ⟨live, inodes⟩ = (.done (), ⟨h :: live, inodes⟩) :=
  run_answering (.acquire h) _

/-- A live object is released. -/
theorem answered_release (hlive : h ∈ live) :
    (release h).run (answering W) ⟨live, inodes⟩ = (.done (), ⟨live.erase h, inodes⟩) :=
  (run_answering (.release h) _).trans (if_pos hlive)

/-- The release of one that is not live is a memory error. -/
theorem answered_release_dead (hlive : h ∉ live) :
    (release h).run (answering W) ⟨live, inodes⟩ = (.halted .memoryError, ⟨live, inodes⟩) :=
  (run_answering (.release h) _).trans (if_neg hlive)

/-- `write_block`, but for a block that fails in a record. -/
theorem answered_writeBlock (W : Writes) (h : Handle) (live : List Handle) (inodes : List Inode)
    (sb : Superblock) (block : Block) (himage : Handle.image ∈ live)
    (hsb : Handle.superblock ∈ live) (hlive : h ∈ live)
    (hresult : W.block.result block ≠ .destructed) :
    (writeBlock h sb block).run (answering W) ⟨live, inodes⟩ =
      (.done (decide (W.block.result block = .stored)), ⟨live, inodes⟩) := by
  have hask : (askWriteBlock sb.fsInfo block).run (answering W) ⟨live, inodes⟩ =
      (.done (W.block.result block), ⟨live, inodes⟩) := run_answering _ _
  unfold writeBlock
  simp only [Prog.run_bind, answered_use himage, answered_use hsb, answered_use hlive, hask,
    follow_done]
  rcases hr : W.block.result block with _ | _ | _ | _
  · rfl
  · rfl
  · rfl
  · exact absurd hr hresult

/-- `write_block` of a block that fails in a record: a path is freed twice. -/
theorem answered_writeBlock_destructed (W : Writes) (h : Handle) (live : List Handle)
    (inodes : List Inode) (sb : Superblock) (block : Block) (himage : Handle.image ∈ live)
    (hsb : Handle.superblock ∈ live) (hlive : h ∈ live) (hdead : h ∉ live.erase h)
    (hresult : W.block.result block = .destructed) :
    (writeBlock h sb block).run (answering W) ⟨live, inodes⟩ =
      (.halted .memoryError, ⟨live.erase h, inodes⟩) := by
  have hask : (askWriteBlock sb.fsInfo block).run (answering W) ⟨live, inodes⟩ =
      (.done .destructed, ⟨live, inodes⟩) := by
    rw [← hresult]
    exact run_answering _ _
  unfold writeBlock
  simp only [Prog.run_bind, answered_use himage, answered_use hsb, answered_use hlive, hask,
    follow_done, answered_release hlive, answered_release_dead hdead, follow_halted]

/-- The inode is written, or not, and was given to the host in any case. -/
theorem answered_writeInode (W : Writes) (h : Handle) (live : List Handle) (inodes : List Inode)
    (himage : Handle.image ∈ live) (hsb : Handle.superblock ∈ live) (hlive : h ∈ live)
    (sb : Superblock) (inode : Inode) :
    (writeInode h sb inode).run (answering W) ⟨live, inodes⟩ =
      (.done W.inode, ⟨live, inodes ++ [inode]⟩) := by
  have hask : (askWriteInode sb.fsInfo inode).run (answering W) ⟨live, inodes⟩ =
      (.done W.inode, ⟨live, inodes ++ [inode]⟩) := run_answering _ _
  unfold writeInode
  simp only [Prog.run_bind, answered_use himage, answered_use hsb, answered_use hlive, hask,
    follow_done]

/-- The superblock is written, or not. -/
theorem answered_writeSuperBlock (W : Writes) (inodes : List Inode)
    (himage : Handle.image ∈ live) (hsb : Handle.superblock ∈ live) (sb : Superblock) :
    (writeSuperBlock sb).run (answering W) ⟨live, inodes⟩ =
      (.done W.superblock, ⟨live, inodes⟩) := by
  have hask : (askWriteSuperBlock sb).run (answering W) ⟨live, inodes⟩ =
      (.done W.superblock, ⟨live, inodes⟩) := run_answering _ _
  unfold writeSuperBlock
  simp only [Prog.run_bind, answered_use himage, answered_use hsb, hask, follow_done]

end Calls

/-! ### The common body -/

section Helper

variable {W : Writes} {sb : Superblock} {live : List Handle} {isFile : Bool}
  {newBlock : Nat → Nat → ExtProg Block} {n b : Nat}

/-- The inode that a helper stores. -/
def helperInode (sb : Superblock) (isFile : Bool) (n b : Nat) : Inode :=
  { initInode sb.fsInfo n isFile with
    blockIds := (initInode sb.fsInfo n isFile).blockIds.set 0 b, blocksCount := 1 }

/-- No inode is free. -/
theorem answered_createHelper_noInode (hlive : CallerObjects live)
    (hn : firstFree sb.reservedInodesMask = none) :
    (createHelper sb isFile newBlock).run (answering W) ⟨live, []⟩ =
      (.done (sb.fsInfo.inodesCount, sb), ⟨live, []⟩) := by
  have hreserve : reserveInode sb = (sb.fsInfo.inodesCount, sb) := by
    unfold reserveInode
    rw [hn]
  unfold createHelper
  rw [Prog.run_bind, answered_use hlive.superblock, follow_done]
  simp only [hreserve, if_true, Prog.run_pure]

/-- An inode is free, but no block is: the inode is released again. -/
theorem answered_createHelper_noBlock (hsb : sb.FitsIn sb.fsInfo) (hlive : CallerObjects live)
    (hn : firstFree sb.reservedInodesMask = some n)
    (hb : firstFree sb.reservedBlocksMask = none) :
    (createHelper sb isFile newBlock).run (answering W) ⟨live, []⟩ =
      (.done (sb.fsInfo.inodesCount, sb), ⟨live, []⟩) := by
  have hlt : n < sb.fsInfo.inodesCount := hsb.inodes ▸ (firstFree_eq_some_iff.mp hn).1
  have hreserve : reserveBlock { sb with reservedInodesMask := sb.reservedInodesMask.set n true } =
      (sb.fsInfo.blocksCount,
        { sb with reservedInodesMask := sb.reservedInodesMask.set n true }) := by
    unfold reserveBlock
    rw [hb]
  unfold createHelper
  rw [Prog.run_bind, answered_use hlive.superblock, follow_done]
  simp only [reserveInode_of_firstFree hn, if_neg hlt.ne, hreserve, if_true,
    freeInode_reserved sb hn, Prog.run_pure]

/-- What a helper does once an inode and a block are reserved. -/
def storeNew (sb : Superblock) (isFile : Bool) (newBlock : Nat → Nat → ExtProg Block) (n b : Nat) :
    ExtProg (Nat × Superblock) := do
  let failed := (sb.fsInfo.inodesCount, sb)
  let _ ← index (initInode sb.fsInfo n isFile).blockIds 0
  let block ← newBlock b n
  acquire .newBlock
  if !(← writeBlock .newBlock (sb.take n b) block) then
    release .newInode
    release .newBlock
    return failed
  else
    release .newBlock
    if !(← writeInode .newInode (sb.take n b) (helperInode sb isFile n b)) then
      release .newInode
      return failed
    else
      release .newInode
      if !(← writeSuperBlock (sb.take n b)) then return failed
      else return (n, sb.take n b)

/-- An inode and a block are free: they are reserved, and a failed write releases them again. -/
theorem answered_createHelper (isFile : Bool) (newBlock : Nat → Nat → ExtProg Block)
    (hsb : sb.FitsIn sb.fsInfo) (hlive : CallerObjects live)
    (hn : firstFree sb.reservedInodesMask = some n)
    (hb : firstFree sb.reservedBlocksMask = some b) :
    (createHelper sb isFile newBlock).run (answering W) ⟨live, []⟩ =
      (storeNew sb isFile newBlock n b).run (answering W) ⟨.newInode :: live, []⟩ := by
  have hltn : n < sb.fsInfo.inodesCount := hsb.inodes ▸ (firstFree_eq_some_iff.mp hn).1
  have hltb : b < sb.fsInfo.blocksCount := hsb.blocks ▸ (firstFree_eq_some_iff.mp hb).1
  have hgeometry : (sb.take n b).fsInfo = sb.fsInfo := rfl
  unfold createHelper storeNew
  rw [Prog.run_bind, answered_use hlive.superblock, follow_done]
  simp only [reserveInode_of_firstFree hn, reserveBlock_of_firstFree hb, if_neg hltn.ne, hgeometry,
    if_neg hltb.ne, freeBlock_freeInode_take hn hb]
  rw [Prog.run_bind, answered_acquire .newInode, follow_done]
  rfl

/-- The inode has no room for a block. -/
theorem answered_storeNew_noRoom (hroom : sb.fsInfo.blocksCountInInode = 0) (s : HelperState) :
    (storeNew sb isFile newBlock n b).run (answering W) s = (.halted .memoryError, s) := by
  have hindex : index (initInode sb.fsInfo n isFile).blockIds 0 = halt .memoryError := by
    unfold index initInode
    rw [hroom]
    rfl
  unfold storeNew
  rw [hindex]
  rfl

/-- A new inode has an entry for its block. -/
theorem index_blockIds (hroom : 0 < sb.fsInfo.blocksCountInInode) :
    index (initInode sb.fsInfo n isFile).blockIds 0 = pure 0 := by
  have hget : (initInode sb.fsInfo n isFile).blockIds[0]? = some 0 := by
    show (List.replicate sb.fsInfo.blocksCountInInode 0)[0]? = some 0
    rw [List.getElem?_replicate, if_pos hroom]
  unfold index
  rw [hget]

/-- A name does not fit its field. -/
theorem answered_storeNew_halt (hroom : 0 < sb.fsInfo.blocksCountInInode)
    (hnew : newBlock b n = halt .memoryError) (s : HelperState) :
    (storeNew sb isFile newBlock n b).run (answering W) s = (.halted .memoryError, s) := by
  unfold storeNew
  rw [index_blockIds hroom, hnew]
  rfl

/-- The write of a record fails: the helper does not get beyond `write_block`. -/
theorem answered_storeNew_destructed (isFile : Bool) (hlive : CallerObjects live)
    (hroom : 0 < sb.fsInfo.blocksCountInInode) {block : Block} (hnew : newBlock b n = pure block)
    (hresult : W.block.result block = .destructed) :
    ∃ s, (storeNew sb isFile newBlock n b).run (answering W) ⟨.newInode :: live, []⟩ =
      (.halted .memoryError, s) := by
  have hwrite := answered_writeBlock_destructed W .newBlock
    (.newBlock :: .newInode :: live) [] (sb.take n b) block
    (by simp [hlive.image]) (by simp [hlive.superblock]) List.mem_cons_self
    (by simp [hlive.newBlock]) hresult
  unfold storeNew
  rw [index_blockIds hroom, hnew]
  refine ⟨⟨.newInode :: live, []⟩, ?_⟩
  simp only [Prog.run_bind, Prog.run_pure, answered_acquire .newBlock, follow_done, hwrite,
    follow_halted, List.erase_cons_head]

/-- The block is written, or its write fails outside of its records: the helper returns. -/
theorem answered_storeNew (isFile : Bool) (hlive : CallerObjects live)
    (hroom : 0 < sb.fsInfo.blocksCountInInode)
    {block : Block} (hnew : newBlock b n = pure block)
    (hresult : W.block.result block ≠ .destructed) :
    ∃ live', (storeNew sb isFile newBlock n b).run (answering W) ⟨.newInode :: live, []⟩ =
      if W.block.result block = .stored then
        (.done (if W.inode ∧ W.superblock then (n, sb.take n b) else (sb.fsInfo.inodesCount, sb)),
          ⟨live', [helperInode sb isFile n b]⟩)
      else (.done (sb.fsInfo.inodesCount, sb), ⟨live', []⟩) := by
  have hwrite := answered_writeBlock W .newBlock (.newBlock :: .newInode :: live) [] (sb.take n b)
    block
    (by simp [hlive.image]) (by simp [hlive.superblock]) List.mem_cons_self hresult
  have hinode := answered_writeInode W .newInode (.newInode :: live) []
    (by simp [hlive.image]) (by simp [hlive.superblock]) List.mem_cons_self
    (sb.take n b) (helperInode sb isFile n b)
  have hsuper := answered_writeSuperBlock W [helperInode sb isFile n b]
    hlive.image hlive.superblock (sb.take n b)
  have hsecond : Handle.newInode ∈ Handle.newBlock :: Handle.newInode :: live := by simp
  have herase : (Handle.newBlock :: Handle.newInode :: live).erase .newInode =
      .newBlock :: live := by
    rw [List.erase_cons_tail (by decide), List.erase_cons_head]
  unfold storeNew
  rw [index_blockIds hroom, hnew]
  refine ⟨live, ?_⟩
  simp only [Prog.run_bind, Prog.run_pure, answered_acquire .newBlock, follow_done, hwrite]
  by_cases hstored : W.block.result block = .stored
  · rw [if_pos hstored]
    simp only [hstored, decide_true, Bool.not_true, Bool.false_eq_true, if_false, Prog.run_bind,
      answered_release List.mem_cons_self, follow_done, List.erase_cons_head, hinode,
      List.nil_append]
    -- the inode is not written, or it is and the superblock decides
    rcases W.inode with _ | _
    · simp only [Bool.not_false, if_true, Prog.run_bind, answered_release List.mem_cons_self,
        follow_done, List.erase_cons_head, Prog.run_pure, Bool.false_eq_true, false_and, if_false]
    · simp only [Bool.not_true, Bool.false_eq_true, if_false, Prog.run_bind,
        answered_release List.mem_cons_self, follow_done, List.erase_cons_head, hsuper, true_and]
      rcases W.superblock with _ | _
      · rfl
      · rfl
  · rw [if_neg hstored]
    simp only [hstored, decide_false, Bool.not_false, if_true, Prog.run_bind,
      answered_release hsecond, follow_done, herase, answered_release List.mem_cons_self,
      List.erase_cons_head, Prog.run_pure]

/-- The inode of a helper lists just the block. -/
theorem take_helperInode (hroom : 0 < sb.fsInfo.blocksCountInInode) :
    (helperInode sb isFile n b).blockIds.take (helperInode sb isFile n b).blocksCount = [b] := by
  obtain ⟨k, hk⟩ : ∃ k, sb.fsInfo.blocksCountInInode = k + 1 := ⟨_, (Nat.succ_pred hroom.ne').symm⟩
  show ((List.replicate sb.fsInfo.blocksCountInInode 0).set 0 b).take 1 = [b]
  rw [hk, List.replicate_succ]
  rfl

/-- **The common body** keeps to all or nothing exactly if, where there is space, the new inode
    has room for a block, and the block is made and is not destructed by its write. -/
theorem allOrNothing_createHelper_iff (hsb : sb.FitsIn sb.fsInfo) (hlive : CallerObjects live)
    {ok : Prop}
    (hok : ok → ∀ b n, ∃ block, newBlock b n = pure block ∧ W.block.result block ≠ .destructed)
    (hnot : ¬ ok → ∀ b n, newBlock b n = halt .memoryError ∨
      ∃ block, newBlock b n = pure block ∧ W.block.result block = .destructed) :
    AllOrNothing W sb live (createHelper sb isFile newBlock) ↔
      (sb.HasSpace → 0 < sb.fsInfo.blocksCountInInode ∧ ok) := by
  have houtside : sb.reservedInodesMask[sb.fsInfo.inodesCount]? ≠ some true := by
    rw [List.getElem?_eq_none hsb.inodes.le]
    exact (Option.some_ne_none true).symm
  -- no inode is free, or no block: nothing is created, and no space is there
  rcases hn : firstFree sb.reservedInodesMask with _ | n
  · refine iff_of_true ⟨_, _, _, answered_createHelper_noInode hlive hn, .inl ⟨rfl, rfl⟩,
      houtside⟩ ?_
    intro hspace
    obtain ⟨n, hn'⟩ := firstFree_isSome_iff.mpr hspace.1
    rw [hn] at hn'
    cases hn'
  rcases hb : firstFree sb.reservedBlocksMask with _ | b
  · refine iff_of_true ⟨_, _, _, answered_createHelper_noBlock hsb hlive hn hb, .inl ⟨rfl, rfl⟩,
      houtside⟩ ?_
    intro hspace
    obtain ⟨b, hb'⟩ := firstFree_isSome_iff.mpr hspace.2
    rw [hb] at hb'
    cases hb'
  have hspace : sb.HasSpace := ⟨firstFree_isSome_iff.mp ⟨n, hn⟩, firstFree_isSome_iff.mp ⟨b, hb⟩⟩
  unfold AllOrNothing
  rw [answered_createHelper isFile newBlock hsb hlive hn hb]
  constructor
  · -- the helper came back, so no step of it halted
    rintro ⟨i, sb', s, hrun, -, -⟩ -
    have hroom : 0 < sb.fsInfo.blocksCountInInode := by
      by_contra hzero
      rw [answered_storeNew_noRoom (Nat.eq_zero_of_not_pos hzero)] at hrun
      cases hrun
    refine ⟨hroom, ?_⟩
    by_contra hbad
    rcases hnot hbad b n with hnew | ⟨block, hnew, hresult⟩
    · rw [answered_storeNew_halt hroom hnew] at hrun
      cases hrun
    · obtain ⟨s', hhalt⟩ := answered_storeNew_destructed isFile hlive hroom hnew hresult
      rw [hhalt] at hrun
      cases hrun
  · intro h
    obtain ⟨hroom, hgood⟩ := h hspace
    obtain ⟨block, hnew, hresult⟩ := hok hgood b n
    obtain ⟨live', hrun⟩ := answered_storeNew isFile hlive hroom hnew hresult
    -- a write that fails gives both back
    by_cases hstored : W.block.result block = .stored
    · rw [if_pos hstored] at hrun
      by_cases hwritten : W.inode = true ∧ W.superblock = true
      · rw [if_pos hwritten] at hrun
        refine ⟨_, _, _, hrun, .inr ?_, ?_⟩
        · exact ⟨hsb.inodes ▸ (firstFree_eq_some_iff.mp hn).1, lowestFree_of_firstFree hn, b,
            lowestFree_of_firstFree hb, rfl, _, rfl, rfl, take_helperInode hroom⟩
        · rw [getElem?_firstFree hn]
          exact fun heq => Bool.noConfusion (Option.some_inj.mp heq)
      · rw [if_neg hwritten] at hrun
        exact ⟨_, _, _, hrun, .inl ⟨rfl, rfl⟩, houtside⟩
    · rw [if_neg hstored] at hrun
      exact ⟨_, _, _, hrun, .inl ⟨rfl, rfl⟩, houtside⟩

end Helper

/-! ### The two helpers -/

/-- **The creation helpers** are all-or-nothing: a directory exactly if, where an inode and a
    block are free, an inode has room for a block, a name field has room for `..`, and no write
    of a record fails; a file if an inode has room for a block. -/
theorem creationHelpers_allOrNothing_iff (W : Writes) (sb : Superblock) (parentNodeId : Nat)
    (hsb : sb.FitsIn sb.fsInfo) {live : List Handle} (hlive : CallerObjects live) :
    (∀ isRoot, AllOrNothing W sb live (createDirHelper sb parentNodeId isRoot) ↔
      (sb.HasSpace → 0 < sb.fsInfo.blocksCountInInode ∧ 2 ≤ sb.fsInfo.maxPathLen ∧
        W.block ≠ .failedInRecord)) ∧
    (AllOrNothing W sb live (createFileHelper sb parentNodeId) ↔
      (sb.HasSpace → 0 < sb.fsInfo.blocksCountInInode)) := by
  constructor
  · intro isRoot
    apply allOrNothing_createHelper_iff hsb hlive
    · rintro ⟨hname, hwrite⟩ b n
      refine ⟨_, if_neg (Nat.not_lt.mpr hname), ?_⟩
      rcases hblock : W.block with _ | _ | _
      · exact WriteBlockResult.noConfusion
      · exact WriteBlockResult.noConfusion
      · exact absurd hblock hwrite
    · intro hbad b n
      by_cases hname : sb.fsInfo.maxPathLen < 2
      · exact .inl (if_pos hname)
      · refine .inr ⟨_, if_neg hname, ?_⟩
        have hwrite : W.block = .failedInRecord := by
          by_contra hne
          exact hbad ⟨Nat.le_of_not_lt hname, hne⟩
        rw [hwrite]
        rfl
  · have hfile : AllOrNothing W sb live (createFileHelper sb parentNodeId) ↔
        (sb.HasSpace → 0 < sb.fsInfo.blocksCountInInode ∧ True) := by
      apply allOrNothing_createHelper_iff hsb hlive
      · intro _ b n
        refine ⟨_, rfl, ?_⟩
        -- a file has no records to fail in
        rcases W.block with _ | _ | _
        · exact WriteBlockResult.noConfusion
        · exact WriteBlockResult.noConfusion
        · exact WriteBlockResult.noConfusion
      · intro hbad
        exact absurd trivial hbad
    rw [hfile]
    simp only [and_true]

/-- The superblock of a new image fits its fields. -/
theorem fitsIn_initSuperBlock : initSuperBlock.FitsIn initSuperBlock.fsInfo :=
  ⟨rfl, List.length_replicate, List.length_replicate⟩

/-- The root directory and a first file, on an empty image whose writes do not fail. -/
theorem creationHelpers_allOrNothing_init :
    AllOrNothing ⟨.stored, true, true⟩ initSuperBlock [.superblock, .image]
        (createDirHelper initSuperBlock 0 true) ∧
      AllOrNothing ⟨.stored, true, true⟩ initSuperBlock [.superblock, .image]
        (createFileHelper initSuperBlock 0) := by
  have hlive : CallerObjects [.superblock, .image] := ⟨by decide, by decide, by decide⟩
  obtain ⟨hdir, hfile⟩ := creationHelpers_allOrNothing_iff ⟨.stored, true, true⟩ initSuperBlock 0
    fitsIn_initSuperBlock hlive
  exact ⟨(hdir true).mpr fun _ => ⟨by decide, by decide, by decide⟩, hfile.mpr fun _ => by decide⟩

/-- Not every failure is rolled back: where the write of a record fails, the block of the new
    directory is destructed twice. -/
theorem not_allOrNothing : ¬ ∀ (W : Writes) (sb : Superblock) (live : List Handle)
    (parentNodeId : Nat), sb.FitsIn sb.fsInfo → CallerObjects live →
    AllOrNothing W sb live (createDirHelper sb parentNodeId false) := by
  intro hall
  have hlive : CallerObjects [.superblock, .image] := ⟨by decide, by decide, by decide⟩
  obtain ⟨n, sb', s, hrun, -, -⟩ := hall ⟨.failedInRecord, true, true⟩ initSuperBlock
    [.superblock, .image] 0 fitsIn_initSuperBlock hlive
  obtain ⟨s', hhalt⟩ := @answered_storeNew_destructed ⟨.failedInRecord, true, true⟩ initSuperBlock _
    (fun b n => pure (directoryBlock defaultFsInfo 0 b n)) 0 0 false hlive (by decide) _ rfl rfl
  have hstart := answered_createHelper (W := ⟨.failedInRecord, true, true⟩) false
    (fun b n => pure (directoryBlock defaultFsInfo 0 b n)) (n := 0) (b := 0)
    fitsIn_initSuperBlock hlive rfl rfl
  rw [hhalt] at hstart
  rw [show createDirHelper initSuperBlock 0 false = createHelper initSuperBlock false
    fun b n => pure (directoryBlock defaultFsInfo 0 b n) from rfl, hstart] at hrun
  cases hrun

end MiniExt
