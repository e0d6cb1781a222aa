import MiniExt.Runs.Ledger

namespace MiniExt

open Lib

/-!
# The objects of a command — its parts

The ledger on the lookups, the creation of an inode, the loops of `write_to_file` and
`read_file`, and the commands that only ask for the usual.  Where a failed call is not handled,
the demand asks that it does not fail.

* `closes_lsInode`, `closes_appendRecord` — the ends of `ls`, `mkdir` and `touch`;
* `passes_createHelper` — the creation of an inode: it has to succeed;
* `comes_writeLoop` — the loop of `write_to_file`: it has to find room (`HasRoom`);
* `tracks_readFile`, `tracks_closeFile`, `tracks_initFs` — commands without such a place.
-/

variable {α : Type} {D : Demand} {live : List Handle}

/-! ### Lookup and listing -/

/-- A lookup releases its block, when that does not fail in the middle of its records. -/
theorem tracks_lookup (hread : ∀ r, D.blockRead r ↔ r ≠ .destructed) (inode : Inode)
    (name : List UInt8) (sb : Superblock) (himage : Handle.image ∈ live)
    (hsb : Handle.superblock ∈ live) (hinode : Handle.inode ∈ live)
    (hfresh : Handle.lookupBlock ∉ live) :
    Tracks D (lookup inode name sb) live fun _ => live := by
  refine (tracks_use hinode).bind fun _ => (tracks_index _ _).bind fun b =>
    (tracks_readBlock hread himage hsb hfresh _ _).bind fun block => ?_
  cases block with
  | none => exact tracks_exitFailure
  | some block =>
    exact (tracks_ofOutcome _).bind fun _ => (tracks_release_head _).bind fun _ => reduces_pure rfl

section Lookup

variable (hread : ∀ r, D.blockRead r ↔ r ≠ .destructed) (inode : Inode) (name : List UInt8)
  (sb : Superblock) (himage : Handle.image ∈ live) (hsb : Handle.superblock ∈ live)
  (hinode : Handle.inode ∈ live) (hfresh : Handle.lookupBlock ∉ live)

include hread himage hsb hinode hfresh

/-- So does `is_dir_exist`. -/
theorem tracks_isDirExist : Tracks D (isDirExist inode name sb) live fun _ => live :=
  (tracks_lookup hread inode name sb himage hsb hinode hfresh).bind fun _ => reduces_pure rfl

/-- And `get_file_inode_id`. -/
theorem tracks_getFileInodeId : Tracks D (getFileInodeId inode name sb) live fun _ => live :=
  (tracks_lookup hread inode name sb himage hsb hinode hfresh).bind fun _ => reduces_pure rfl

end Lookup

/-- The command ends here, and leaves nothing live. -/
abbrev Closes {ω : Type} (D : Demand) (env : Environment host ω) (p : ExtProg α)
    (live : List Handle) : Prop :=
  Comes ledger D.accepts env p live (fun _ _ live => live = []) fun _ _ => True

section Ends

variable {ω : Type} {env : Environment host ω}

/-- A program that releases everything closes its command. -/
theorem Lib.Reduces.closes {p : ExtProg α} (hp : Tracks D p live fun _ => []) :
    Closes D env p live :=
  hp.comes_iff fun _ _ => iff_of_true rfl trivial

/-- Any answer is fine for a command that asks for nothing. -/
theorem anything_accepts (c : HostCall) (a : c.Answer) : anything.accepts c a := by
  cases c <;> trivial

/-- A part that asks for nothing and releases everything. -/
theorem Lib.Reduces.passes {p : ExtProg α} (hp : Tracks anything p live fun _ => []) (w : ω) :
    p.Passes ledger env w live fun _ _ live => live = [] :=
  (hp.closes.iff w).mpr (Prog.meets_of_forall anything_accepts p fun _ _ => trivial)

/-- A block that is still live when the command returns. -/
theorem rejects_leave_block :
    Rejects ledger env leave [.block, .superblock, .image] fun _ _ live => live = [] :=
  ⟨fun _ hpasses => List.cons_ne_nil Handle.block [] hpasses.2.2⟩

/-- In a listing the inode of every record has to be read. -/
def inodesRead : Demand where
  inodeRead := fun inode => inode.isSome
  blockRead := (· ≠ .destructed)

/-- The lines of `ls` close their command, when every inode can be read. -/
theorem closes_lsRecords (sb : Superblock) (rs : List BlockRecord) :
    Closes inodesRead env (lsRecords sb rs) [.block, .superblock, .image] := by
  induction rs with
  | nil => exact ((tracks_release_head _).bind fun _ => tracks_leave).closes
  | cons r rs ih =>
    refine (requires_readInode (by decide) (by decide) _ _ _).bind_comes ?_ ?_
    · intro inode hsome
      obtain ⟨inode, rfl⟩ := Option.isSome_iff_exists.mp hsome
      exact (tracks_release_head _).bind_comes fun _ => ih
    · -- the block of the directory stays live
      intro inode hnone
      obtain rfl : inode = none := Option.not_isSome_iff_eq_none.mp hnone
      exact rejects_leave_block

/-- The listing of an inode closes its command likewise. -/
theorem closes_lsInode (sb : Superblock) (inode : Inode) :
    Closes inodesRead env (lsInode sb inode) [.inode, .superblock, .image] := by
  refine (tracks_use List.mem_cons_self).bind_comes fun _ => ?_
  split
  · exact tracks_leaveInode.closes
  refine (tracks_index _ _).bind_comes fun b =>
    (tracks_readBlock (fun _ => Iff.rfl) (by decide) (by decide) (by decide) _ _).bind_comes
      fun block => ?_
  cases block with
  | none => exact tracks_leaveInode.closes
  | some block =>
    show Closes inodesRead env _ [.block, .inode, .superblock, .image]
    exact (tracks_release (by decide)).bind_comes fun _ => closes_lsRecords _ _

/-! ### Creation -/

/-- The masks have a free inode and a free block. -/
def CanReserve (sb : Superblock) : Prop :=
  (reserveInode sb).1 ≠ sb.fsInfo.inodesCount ∧
    (reserveBlock (reserveInode sb).2).1 ≠ sb.fsInfo.blocksCount

/-- A creation needs all its writes. -/
def stored : Demand where
  blockWrite := (· = .stored)
  inodeWrite := (· = true)
  superblockWrite := (· = true)

section Helper

variable {newBlock : Nat → Nat → ExtProg Block}
  (hblock : ∀ D live b i, Tracks D (newBlock b i) live fun _ => live)
  (himage : Handle.image ∈ live) (hsb : Handle.superblock ∈ live)
  (hnewBlock : Handle.newBlock ∉ live)
  (sb : Superblock) (isFile : Bool)

include hblock himage hsb hnewBlock

/-- A creation that may fail, as the one of the root. -/
theorem tracks_createHelper :
    Tracks usual (createHelper sb isFile newBlock) live fun _ => live := by
  refine (tracks_use hsb).bind fun _ => ?_
  dsimp only
  split
  · exact reduces_pure rfl
  split
  · exact reduces_pure rfl
  refine (tracks_acquire .newInode).bind fun _ => (tracks_index _ _).bind fun _ =>
    (hblock _ _ _ _).bind fun block => (tracks_acquire .newBlock).bind fun _ => ?_
  have hsb' : ∀ h, Handle.superblock ∈ h :: live := fun h => List.mem_cons_of_mem _ hsb
  have himage' : ∀ h, Handle.image ∈ h :: live := fun h => List.mem_cons_of_mem _ himage
  rw [writeBlock_bind]
  refine (requires_writeBlockCall (List.mem_cons_of_mem _ (himage' _))
    (List.mem_cons_of_mem _ (hsb' _)) List.mem_cons_self _ _).bind ?_ ?_
  · intro r hr
    have hfailed : ∀ failed : Nat × Superblock, Tracks usual (do
        release .newInode
        release .newBlock
        return failed) (.newBlock :: .newInode :: live) fun _ => live := fun failed =>
      (tracks_release_second (by decide)).bind fun _ => (tracks_release_head _).bind fun _ =>
        reduces_pure rfl
    cases r with
    | destructed => exact absurd rfl hr
    | failed => exact hfailed _
    | rejected => exact hfailed _
    | stored =>
      refine (tracks_release_head _).bind fun _ =>
        ((requires_writeInode (himage' _) (hsb' _) List.mem_cons_self _ _).reduces
          fun _ => trivial).bind fun written => ?_
      cases written with
      | false => exact (tracks_release_head _).bind fun _ => reduces_pure rfl
      | true =>
        refine (tracks_release_head _).bind fun _ =>
          ((requires_writeSuperBlock himage hsb _).reduces fun _ => trivial).bind fun written => ?_
        cases written with
        | false => exact reduces_pure rfl
        | true => exact reduces_pure rfl
  · intro ω env Q r hr
    obtain rfl : r = .destructed := not_not.mp hr
    exact rejects_released (by simpa using hnewBlock)

/-- A creation whose failure the rest of the command does not survive. -/
theorem passes_createHelper {Q : Nat × Superblock → ω → List Handle → Prop}
    {Q' : Nat × Superblock → ω → Prop}
    (hfailed : ∀ sb' w, sb'.fsInfo = sb.fsInfo → ¬ Q (sb.fsInfo.inodesCount, sb') w live)
    (hdone : ∀ i sb' w, sb'.fsInfo = sb.fsInfo → i ≠ sb.fsInfo.inodesCount →
      (Q (i, sb') w live ↔ Q' (i, sb') w)) (w : ω) :
    (createHelper sb isFile newBlock).Passes ledger env w live Q ↔
      CanReserve sb ∧ (createHelper sb isFile newBlock).Meets stored.accepts env w Q' := by
  -- a helper that cannot reserve fails before it acquires anything
  by_cases hreserve : CanReserve sb
  · rw [and_iff_right hreserve]
    obtain ⟨hinode, hb⟩ := hreserve
    refine Comes.iff ?_ w
    refine (tracks_use hsb).bind_comes fun _ => ?_
    dsimp only
    rw [fsInfo_reserveInode, if_neg hinode, fsInfo_reserveBlock, fsInfo_reserveInode, if_neg hb]
    refine (tracks_acquire .newInode).bind_comes fun _ => (tracks_index _ _).bind_comes fun _ =>
      (hblock _ _ _ _).bind_comes fun block => (tracks_acquire .newBlock).bind_comes fun _ => ?_
    have hsb' : ∀ h, Handle.superblock ∈ h :: live := fun h => List.mem_cons_of_mem _ hsb
    have himage' : ∀ h, Handle.image ∈ h :: live := fun h => List.mem_cons_of_mem _ himage
    rw [writeBlock_bind]
    refine (requires_writeBlockCall (List.mem_cons_of_mem _ (himage' _))
      (List.mem_cons_of_mem _ (hsb' _)) List.mem_cons_self _ _).bind_comes ?_ ?_
    · -- the block is written
      rintro r rfl
      refine (tracks_release_head _).bind_comes fun _ =>
        (requires_writeInode (himage' _) (hsb' _) List.mem_cons_self _ _).bind_comes ?_ ?_
      · rintro written rfl
        refine (tracks_release_head _).bind_comes fun _ =>
          (requires_writeSuperBlock himage hsb _).bind_comes ?_ ?_
        · rintro written rfl
          exact comes_pure fun w => hdone _ _ w (by simp) hinode
        · intro written hwritten
          obtain rfl := eq_false_of_ne_true hwritten
          exact rejects_pure fun w => hfailed _ w (by simp)
      · intro written hwritten
        obtain rfl := eq_false_of_ne_true hwritten
        refine .after_release (rejects_pure fun w => ?_)
        rw [List.erase_cons_head]
        exact hfailed _ w (by simp)
    · -- the block is not written
      intro r hr
      cases r with
      | stored => exact absurd rfl hr
      | failed =>
        exact .after_release (.after_release (rejects_pure fun w => hfailed _ w (by simp)))
      | rejected =>
        exact .after_release (.after_release (rejects_pure fun w => hfailed _ w (by simp)))
      | destructed => exact rejects_released (by simpa using hnewBlock)
  · rw [iff_false_right fun h => hreserve h.1]
    refine Rejects.not_passes ?_ w
    refine .after_use ?_
    dsimp only
    by_cases hinode : (reserveInode sb).1 = sb.fsInfo.inodesCount
    · rw [fsInfo_reserveInode, if_pos hinode]
      exact rejects_pure fun w => hfailed _ w (by simp)
    · have hb : (reserveBlock (reserveInode sb).2).1 = sb.fsInfo.blocksCount :=
        not_not.mp fun h => hreserve ⟨hinode, h⟩
      rw [fsInfo_reserveInode, if_neg hinode, fsInfo_reserveBlock, fsInfo_reserveInode, if_pos hb]
      exact rejects_pure fun w => hfailed _ w (by simp)

end Helper

/-- The block of the parent has to be read, to have room, and to be written; on a mixed one
    `read_block` crashes. -/
def appendable (sb : Superblock) : Demand where
  blockRead := fun r => r = .mixed ∨
    ∃ block, r = .read block ∧ block.info.recordsCount ≠ getMaxRecordsCount sb.fsInfo
  blockWrite := (· = .stored)

/-- What is rejected after leaving with an inode is rejected. -/
theorem Lib.Rejects.after_leaveInode {Q : α → ω → List Handle → Prop} {f : Unit → ExtProg α}
    (hf : Rejects ledger env (f ()) (((live.erase .inode).erase .superblock).erase .image) Q) :
    Rejects ledger env (leaveInode >>= f) live Q :=
  ⟨fun _ hpasses => hf.not_passes _ hpasses.2.2.2⟩

/-- What is rejected after leaving is rejected. -/
theorem Lib.Rejects.after_leave {Q : α → ω → List Handle → Prop} {f : Unit → ExtProg α}
    (hf : Rejects ledger env (f ()) ((live.erase .superblock).erase .image) Q) :
    Rejects ledger env (leave >>= f) live Q :=
  ⟨fun _ hpasses => hf.not_passes _ hpasses.2.2⟩

/-- Appending a record closes a creation, when the block has room and is written. -/
theorem closes_appendRecord (sb : Superblock) (inode : Inode) (newInodeId : Nat)
    (dirname : List UInt8) (returnsWhenFull : Bool) :
    Closes (appendable sb) env (appendRecord sb inode newInodeId dirname returnsWhenFull)
      [.inode, .superblock, .image] := by
  refine (tracks_use List.mem_cons_self).bind_comes fun _ => (tracks_index _ _).bind_comes
    fun b => ?_
  rw [readBlock_bind]
  refine (requires_readBlockCall (by decide) (by decide) _ _).bind_comes ?_ ?_
  · rintro r (rfl | ⟨block, rfl, hroom⟩)
    · exact comes_halt
    refine (tracks_acquire .block).bind_comes fun _ => ?_
    refine (tracks_use (by decide)).bind_comes fun _ => (tracks_use (by decide)).bind_comes
      fun _ => ?_
    dsimp only [Option.getD_some]
    rw [if_neg hroom, if_neg fun h => hroom h.1]
    refine (tracks_use (by decide)).bind_comes fun _ => ?_
    split
    · exact comes_halt
    rw [writeBlock_bind]
    refine (requires_writeBlockCall (by decide) (by decide) (by decide) _ _).bind_comes ?_ ?_
    · rintro r rfl
      exact ((tracks_release_second (by decide)).bind fun _ => (tracks_release_head _).bind
        fun _ => tracks_leave).closes
    · -- the objects are released twice
      intro r hr
      have hfailed : Rejects ledger env (do
          release .inode
          release .block
          leave
          release .inode
          release .block
          leave) [.block, .inode, .superblock, .image] fun _ _ live => live = [] :=
        ⟨fun _ hpasses => List.not_mem_nil (a := Handle.inode) hpasses.2.2.2.2.1⟩
      cases r with
      | stored => exact absurd rfl hr
      | failed => exact hfailed
      | rejected => exact hfailed
      | destructed => exact rejects_released (by decide)
  · intro r hr
    cases r with
    | mixed => exact absurd (.inl rfl) hr
    | failed => exact .after_leaveInode (rejects_use (by decide))
    | destructed => exact rejects_release (by decide)
    | read block =>
      have hfull : block.info.recordsCount = getMaxRecordsCount sb.fsInfo :=
        not_not.mp fun hroom => hr (.inr ⟨block, rfl, hroom⟩)
      refine .after_acquire (.after_use (.after_use ?_))
      dsimp only [Option.getD_some]
      rw [if_pos hfull]
      refine .after_leaveInode ?_
      show Rejects ledger env _ [.block] _
      by_cases hreturns : returnsWhenFull = true
      · -- `create_file` returns with the block live
        rw [if_pos ⟨hfull, hreturns⟩]
        exact rejects_pure fun _ => List.cons_ne_nil Handle.block []
      · rw [if_neg fun h => hreturns h.2]
        exact rejects_use (by decide)

/-! ### Writing -/

/-- The objects of the loops of `write_to_file` and `read_file`, between two turns. -/
def loopHandles : List Handle := [.inode, .descriptorsTable, .superblock, .image]

/-- The epilogue of a write releases everything. -/
theorem tracks_storeAll (hinode : ∀ b, D.inodeWrite b) (hsb : ∀ b, D.superblockWrite b)
    (fd : Nat) (s : WriteState) : Tracks D (storeAll fd s) loopHandles fun _ => [] := by
  refine (tracks_use (by decide)).bind fun _ =>
    (tracks_writeDescriptorTable (by decide) (by decide) (by decide) _ _).bind fun written => ?_
  cases written with
  | false =>
    exact (tracks_release_second (by decide)).bind fun _ =>
      tracks_exitReleased (by decide) (by decide) (by decide)
  | true =>
    refine (tracks_release_second (by decide)).bind fun _ =>
      ((requires_writeInode (by decide) (by decide) (by decide) _ _).reduces hinode).bind
        fun written => ?_
    cases written with
    | false => exact tracks_exitReleased (by decide) (by decide) (by decide)
    | true =>
      refine (tracks_release_head _).bind fun _ =>
        ((requires_writeSuperBlock (by decide) (by decide) _).reduces hsb).bind fun written => ?_
      cases written with
      | false => exact tracks_leave.bind fun _ => tracks_exitFailure
      | true => exact tracks_leave

/-- The variables after a piece was written. -/
def WriteState.filled (s : WriteState) : WriteState :=
  let maxData := getMaxDataInBlock s.sb.fsInfo
  let remainSize := maxData - s.fdPosition % maxData
  let sizeToWrite := if s.needToWriteSize < remainSize then s.needToWriteSize else remainSize
  { s with
    fdPosition := (s.fdPosition + sizeToWrite) % 2 ^ 32
    data := s.data.drop sizeToWrite
    totalWritten := s.totalWritten + sizeToWrite
    needToWriteSize := s.needToWriteSize - sizeToWrite }

/-- The variables after a block was appended. -/
def WriteState.appended (s : WriteState) (newBlockId : Nat) : WriteState :=
  { s with
    inode := { s.inode with
      blockIds := s.inode.blockIds.set s.inode.blocksCount newBlockId
      blocksCount := (s.inode.blocksCount + 1) % 2 ^ 16 } }

/-- A filled block is written and released. -/
theorem tracks_fillBlock (s : WriteState) (block : Block) :
    Tracks usual (fillBlock s block) (.block :: loopHandles) fun _ => loopHandles := by
  refine (tracks_use (by decide)).bind fun _ => ?_
  generalize (if s.needToWriteSize < _ then _ else _ : Nat) = sizeToWrite
  split
  · exact reduces_halt
  rw [writeBlock_bind]
  refine (requires_writeBlockCall (by decide) (by decide) (by decide) _ _).bind ?_ ?_
  · intro r hr
    have hfailed : ∀ p : ExtProg WriteState, Tracks usual (do
        release .block
        exitReleased
        p) (.block :: loopHandles) fun _ => loopHandles := fun p =>
      (tracks_release_head _).bind fun _ =>
        tracks_exitReleased_bind (by decide) (by decide) (by decide)
    cases r with
    | destructed => exact absurd rfl hr
    | stored => exact (tracks_release_head _).bind fun _ => reduces_pure rfl
    | failed => exact hfailed _
    | rejected => exact hfailed _
  · intro ω env Q r hr
    obtain rfl : r = .destructed := not_not.mp hr
    exact rejects_released (by decide)

/-- Filling a block yields the next state of the loop. -/
theorem yields_fillBlock (s : WriteState) (block : Block) :
    (fillBlock s block).Yields (· = s.filled) := by
  unfold WriteState.filled
  refine Prog.Yields.bind fun _ => ?_
  dsimp only
  generalize (if s.needToWriteSize < _ then _ else _ : Nat) = sizeToWrite
  split
  · trivial
  refine Prog.Yields.bind fun written => ?_
  split
  · exact Prog.Yields.bind fun _ => Prog.Yields.bind fun _ => Prog.Yields.bind fun _ =>
      Prog.yields_pure rfl
  · exact Prog.Yields.bind fun _ => Prog.yields_pure rfl

/-- An appended block is live. -/
theorem tracks_appendBlock (s : WriteState) (inodeId newBlockId : Nat) :
    Tracks usual (appendBlock s inodeId newBlockId) loopHandles fun _ => .block :: loopHandles := by
  refine (tracks_acquire _).bind fun _ => (tracks_index _ _).bind fun _ =>
    ((requires_writeInode (by decide) (by decide) (by decide) _ _).reduces fun _ => trivial).bind
      fun written => ?_
  cases written with
  | true => exact reduces_pure rfl
  | false =>
    exact (tracks_release_head _).bind fun _ =>
      tracks_exitReleased_bind (by decide) (by decide) (by decide)

/-- Appending a block yields the state with the longer list. -/
theorem yields_appendBlock (s : WriteState) (inodeId newBlockId : Nat) :
    (appendBlock s inodeId newBlockId).Yields fun r => r.1 = s.appended newBlockId := by
  refine Prog.Yields.bind fun _ => Prog.Yields.bind fun _ => Prog.Yields.bind fun written => ?_
  split
  · exact Prog.Yields.bind fun _ => Prog.Yields.bind fun _ => Prog.yields_pure rfl
  · exact Prog.yields_pure rfl

/-- Every turn of the loop finds its block in the list of the inode, or a free block and an entry
    for it. -/
def HasRoom (size : Nat) : (fuel : Nat) → WriteState → Prop
  | 0, _ => True
  | fuel + 1, s =>
    if s.totalWritten = size then True
    else if s.fdPosition % 2 ^ 16 / getMaxDataInBlock s.sb.fsInfo % 2 ^ 16 <
        s.inode.blocksCount then
      HasRoom size fuel s.filled
    else
      (reserveBlock s.sb).1 ≠ s.sb.fsInfo.blocksCount ∧
        s.inode.blocksCount ≠ s.sb.fsInfo.blocksCountInInode ∧
        HasRoom size fuel
          (({ s with sb := (reserveBlock s.sb).2 } : WriteState).appended
            (reserveBlock s.sb).1).filled

/-- The loop ends with everything live if there is room, and with everything released if not. -/
theorem comes_writeLoop (fd inodeId size fuel : Nat) (s : WriteState)
    {Q : WriteState → ω → List Handle → Prop} (hroom : ∀ s w, Q s w loopHandles)
    (hfull : ∀ s w, ¬ Q s w []) :
    Comes ledger usual.accepts env (writeLoop fd inodeId size fuel s) loopHandles Q
      fun _ _ => HasRoom size fuel s := by
  -- by induction on the turns
  induction fuel generalizing s with
  | zero => exact comes_pure fun w => iff_of_true (hroom s w) trivial
  | succ fuel ih =>
    unfold writeLoop HasRoom
    by_cases hdone : s.totalWritten = size
    · rw [if_pos hdone, if_pos hdone]
      exact comes_pure fun w => iff_of_true (hroom s w) trivial
    rw [if_neg hdone, if_neg hdone]
    refine (tracks_use (by decide)).bind_comes fun _ => (tracks_use (by decide)).bind_comes
      fun _ => ?_
    dsimp only
    split
    · exact comes_halt
    split
    · -- the block is in the list
      refine (tracks_index _ _).bind_comes fun b =>
        (tracks_readBlock (fun _ => Iff.rfl) (by decide) (by decide) (by decide) _ _).bind_comes
          fun read => ?_
      cases read with
      | none =>
        exact (tracks_release (by decide)).bind_comes fun _ =>
          (tracks_exitReleased (e := fun _ => []) (by decide) (by decide)
            (by decide)).bind_comes_of_never yields_exitReleased
      | some block =>
        refine (tracks_fillBlock s block).bind_comes_of_yields (yields_fillBlock s block) ?_
        rintro _ rfl
        exact ih _
    · obtain ⟨b, hb⟩ : ∃ b, (reserveBlock s.sb).1 = b := ⟨_, rfl⟩
      obtain ⟨sb, hsb⟩ : ∃ sb, (reserveBlock s.sb).2 = sb := ⟨_, rfl⟩
      have hinfo : sb.fsInfo = s.sb.fsInfo := by rw [← hsb, fsInfo_reserveBlock]
      rw [hb, hsb, hinfo]
      -- where the room ends everything is released, and the code after the loop goes on
      have hexhausted : ∀ s, Comes ledger usual.accepts env (do
          storeAll fd s
          return s) loopHandles Q fun _ _ => False := fun s =>
        ((tracks_storeAll (fun _ => trivial) (fun _ => trivial) fd s).bind fun _ =>
          reduces_pure rfl).comes_iff fun s w => iff_of_false (hfull s w) id
      by_cases hfree : b = s.sb.fsInfo.blocksCount
      · -- no free block
        rw [if_pos hfree]
        simpa [hfree] using hexhausted { s with sb := sb }
      rw [if_neg hfree]
      by_cases hentry : s.inode.blocksCount = s.sb.fsInfo.blocksCountInInode
      · -- no free entry
        rw [if_pos hentry]
        simpa [hentry] using hexhausted { s with sb := sb }
      rw [if_neg hentry]
      simp only [ne_eq, hfree, hentry, not_false_eq_true, true_and]
      refine (tracks_appendBlock _ inodeId b).bind_comes_of_yields (yields_appendBlock _ _ _) ?_
      rintro ⟨s', block⟩ rfl
      refine (tracks_fillBlock _ block).bind_comes_of_yields (yields_fillBlock _ block) ?_
      rintro _ rfl
      exact ih _

end Ends

/-! ### Reading -/

/-- The loop of a read releases its blocks. -/
theorem tracks_readLoop (sb : Superblock) (inode : Inode) (size capacity fuel : Nat)
    (s : ReadState) :
    Tracks usual (readLoop sb inode size capacity fuel s) loopHandles fun _ => loopHandles := by
  induction fuel generalizing s with
  | zero => exact reduces_pure rfl
  | succ fuel ih =>
    unfold readLoop
    split
    · exact reduces_pure rfl
    refine (tracks_use (by decide)).bind fun _ => (tracks_use (by decide)).bind fun _ => ?_
    dsimp only
    split
    · exact reduces_halt
    split
    · exact reduces_pure rfl
    refine (tracks_index _ _).bind fun b =>
      (tracks_readBlock (fun _ => Iff.rfl) (by decide) (by decide) (by decide) _ _).bind
        fun read => ?_
    cases read with
    | none =>
      exact (tracks_release (by decide)).bind fun _ =>
        tracks_exitReleased_bind (by decide) (by decide) (by decide)
    | some block =>
      dsimp only
      split
      · exact (tracks_release_head _).bind fun _ => reduces_pure rfl
      generalize (if s.needToRead < _ then _ else _ : Nat) = sizeToRead
      split
      · exact reduces_halt
      · exact (tracks_release_head _).bind fun _ => ih _

/-- **`read_file`** releases everything. -/
theorem tracks_readFile (fd size capacity : Nat) :
    Tracks usual (readFile fd size capacity) [] fun _ => [] := by
  refine tracks_enter.bind fun sb =>
    (tracks_readDescriptorsTable (by decide) (by decide) _).bind fun table => ?_
  cases table with
  | none => exact tracks_leave.bind fun _ => tracks_exitFailure
  | some dt =>
    show Tracks usual _ [.descriptorsTable, .superblock, .image] _
    refine (tracks_use (by decide)).bind fun _ => (tracks_index _ _).bind fun reserved => ?_
    cases reserved with
    | false => exact tracks_leaveTable.bind fun _ => reduces_pure rfl
    | true =>
      refine (tracks_index _ _).bind fun _ => (tracks_index _ _).bind fun i =>
        ((requires_readInode (by decide) (by decide) _ _ _).reduces fun _ => trivial).bind
          fun read => ?_
      cases read with
      | none => exact tracks_leaveTable.bind fun _ => tracks_exitFailure
      | some inode =>
        refine (tracks_readLoop _ _ _ _ _ _).bind fun s =>
          (tracks_writeDescriptorTable (by decide) (by decide) (by decide) _ _).bind
            fun written => ?_
        cases written with
        | false =>
          exact (tracks_release_second (by decide)).bind fun _ =>
            tracks_exitReleased_bind (by decide) (by decide) (by decide)
        | true =>
          exact (tracks_release_second (by decide)).bind fun _ =>
            tracks_leaveInode.bind fun _ => reduces_pure rfl

/-- The `read` of the client releases everything. -/
theorem tracks_readCommand (fd size : Nat) : Tracks usual (readCommand fd size) [] fun _ => [] := by
  refine (tracks_readFile _ _ _).bind fun _ => ?_
  split
  · exact reduces_halt
  · exact reduces_pure rfl

/-- **`read_file_to_file`** releases everything. -/
theorem tracks_readFileToFile (fd : Nat) (path : List UInt8) (size : Option Nat) :
    Tracks usual (readFileToFile fd path size) [] fun _ => [] := by
  refine tracks_enter.bind fun sb => tracks_leave.bind fun _ => (tracks_readFile _ _ _).bind
    fun buffer => ?_
  cases buffer with
  | none => exact reduces_pure rfl
  | some buffer =>
    exact ((requires_ask (.writeHostFile path buffer) fun _ => trivial).reduces
      fun _ => trivial).bind fun _ => reduces_pure rfl

/-! ### The other commands that only ask for the usual -/

/-- **`read_fs`** releases everything. -/
theorem tracks_readFs : Tracks usual readFs [] fun _ => [] :=
  tracks_openFs.bind fun _ => tracks_leave

/-- **`close_file`** releases everything. -/
theorem tracks_closeFile (fd : Nat) : Tracks usual (closeFile fd) [] fun _ => [] :=
  tracks_enterTable.bind fun _ => (tracks_use (by decide)).bind fun _ =>
    (tracks_index _ _).bind fun _ => (tracks_storeTable _ _).bind fun _ => tracks_leaveTable

/-- The block of a new directory is made without objects. -/
theorem tracks_createDirHelper_block (D : Demand) (live : List Handle) (sb : Superblock)
    (parent : Nat) (isRoot : Bool) (b i : Nat) :
    Tracks D (if sb.fsInfo.maxPathLen < 2 then halt .memoryError
      else pure (directoryBlock sb.fsInfo (if isRoot then i else parent) b i)) live
      fun _ => live := by
  split
  · exact reduces_halt
  · exact reduces_pure rfl

/-- **`init_fs`** releases everything. -/
theorem tracks_initFs : Tracks usual initFs [] fun _ => [] := by
  refine (tracks_openImage true).bind fun opened => ?_
  cases opened with
  | false => exact tracks_exitFailure
  | true =>
    refine (tracks_acquire .superblock).bind fun _ =>
      ((requires_writeSuperBlock (by decide) (by decide) _).reduces fun _ => trivial).bind
        fun written => ?_
    cases written with
    | false => exact (tracks_release_head _).bind fun _ => tracks_exitFailure
    | true =>
      refine (tracks_acquire .descriptorsTable).bind fun _ =>
        (tracks_writeDescriptorTable (by decide) (by decide) (by decide) _ _).bind
          fun written => ?_
      cases written with
      | false =>
        exact (tracks_release_head _).bind fun _ => (tracks_release_head _).bind fun _ =>
          tracks_exitFailure
      | true =>
        exact (tracks_createHelper
          (fun D live b i => tracks_createDirHelper_block D live _ _ _ b i) (by decide) (by decide)
          (by decide) _ _).bind fun _ => (tracks_release_head _).bind fun _ => tracks_leave

end MiniExt
