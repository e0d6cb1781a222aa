import MiniExt.Invariant.Changes

namespace MiniExt

open Lib

/-!
# The turns of a write

`Image.WriteRun` is the loop of `write_to_file` as a relation, one constructor per way a
turn can go: every later fact about writes is an induction over it.

* `Ok.writeRun` — the loop is total on an image that keeps the invariant, and
  `Image.writeTurns` computes its end;
* `WriteRun.ok` — the invariant holds at the end of the loop, with the new superblock;
* `WriteRun.sameTree` — no directory notices it;
* `WriteRun.inode_grows` — the block list grows, and bounds how far the position can get;
* `WriteRun.not_rejected` — only the first turn can meet the records of a directory.
-/

namespace Image

variable {I : Image}

/-! ### Blocks that are written -/

/-- A block of data has a full buffer. -/
theorem length_buffer {s : Slot} (h : s.IsData) : s.buffer.length = 121 := by
  have := h.2.1
  have := Slot.length_visible_le h
  simp only [Slot.buffer, List.length_append, List.length_replicate]
  omega

/-- A copy inside a buffer keeps its length. -/
theorem length_memcpy {buffer bytes : List UInt8} {pos : Nat}
    (h : pos + bytes.length ≤ buffer.length) :
    (memcpy buffer pos bytes).length = buffer.length := by
  simp only [memcpy, List.length_append, List.length_take, List.length_drop]
  omega

/-- A piece that fits makes a data block of a data block. -/
theorem fill_isData {s : Slot} (h : s.IsData) {offset : Nat} {piece : List UInt8}
    (hfit : offset + piece.length ≤ 121) : (s.fill offset piece).IsData := by
  refine ⟨h.1, hfit, fun _ => ⟨_, rfl, ?_⟩⟩
  rw [length_memcpy (by rwa [length_buffer h]), length_buffer h]

/-- An appended block is one of data. -/
theorem appendedSlot_isData (i b : Nat) {offset : Nat} {piece : List UInt8}
    (hfit : offset + piece.length ≤ 121) : (appendedSlot i b offset piece).IsData :=
  fill_isData ⟨rfl, Nat.zero_le 121, fun h => absurd rfl h⟩ hfit

/-- The piece of a turn fits into its block. -/
theorem piece_fits (pos : Nat) (data : List UInt8) :
    pos % 121 + (data.take (121 - pos % 121)).length ≤ 121 := by
  rw [List.length_take]
  omega

/-- A block that holds no records is a data block of its owner. -/
theorem InodeOk.data_block {i k b : Nat} {inode : Inode} {s : Slot} (h : I.InodeOk i inode)
    (hget : I.inodes i = some inode) (hk : k < inode.blocksCount)
    (hblock : I.block i k = some (b, s)) (hs : s.info.recordsCount = 0) :
    s.IsData ∧ ¬ (k = 0 ∧ inode.isFile = false) ∧ inode.blockIds[k]? = some b ∧
      I.slots b = some s ∧ s.Holds i k b inode.isFile := by
  obtain ⟨hb, hslot⟩ := block_entry hblock hget
  obtain ⟨_, s', hs', hh⟩ := h.block hk hb
  rw [hslot] at hs'
  cases hs'
  have hbody := hh.body
  by_cases hdir : k = 0 ∧ inode.isFile = false
  · rw [if_pos hdir] at hbody
    exact absurd hs hbody.not_isData
  · rw [if_neg hdir] at hbody
    exact ⟨hbody, hdir, hb, hslot, hh⟩

/-- The first block of a directory, as a write finds it. -/
theorem InodeOk.records_block {i k b : Nat} {inode : Inode} {s : Slot} (h : I.InodeOk i inode)
    (hget : I.inodes i = some inode) (hk : k < inode.blocksCount)
    (hblock : I.block i k = some (b, s)) (hs : s.info.recordsCount ≠ 0) :
    s.IsRecords i ∧ k = 0 ∧ inode.isFile = false ∧ inode.blockIds[k]? = some b ∧
      I.slots b = some s ∧ s.Holds i k b inode.isFile := by
  obtain ⟨hb, hslot⟩ := block_entry hblock hget
  obtain ⟨_, s', hs', hh⟩ := h.block hk hb
  rw [hslot] at hs'
  cases hs'
  have hbody := hh.body
  by_cases hdir : k = 0 ∧ inode.isFile = false
  · rw [if_pos hdir] at hbody
    exact ⟨hbody, hdir.1, hdir.2, hb, hslot, hh⟩
  · rw [if_neg hdir] at hbody
    exact absurd hbody.1 hs

namespace Ok

/-- **A piece is stored** in a data block of an inode. -/
theorem patch (h : I.Ok) {i k b : Nat} {inode : Inode} {s : Slot}
    (hi : Taken I.sb.reservedInodesMask i) (hget : I.inodes i = some inode)
    (hk : k < inode.blocksCount) (hblock : I.block i k = some (b, s))
    (hs : s.info.recordsCount = 0) {offset : Nat} {piece : List UInt8}
    (hfit : offset + piece.length ≤ 121) : (I.setSlot b (s.fill offset piece)).Ok := by
  have hok := h.layout.inodeOk hi hget
  obtain ⟨hdata, hdir, hb, hslot, hh⟩ := hok.data_block hget hk hblock hs
  have hfill := fill_isData hdata hfit
  refine h.setSlot hi hget hk hb hslot ⟨hh.blockId_eq, hh.inodeId_eq, ?_⟩ ?_ ?_
  · rw [if_neg hdir]
    exact hfill
  · rw [hdata.records_eq, hfill.records_eq]
  · rintro rfl rfl
    -- the first block of the root directory holds records
    obtain ⟨_, inode', hget', hkind⟩ := h.root_dir
    rw [store_inodes, rootInodeId, hget] at hget'
    cases hget'
    exact absurd ⟨rfl, hkind⟩ hdir

/-- No directory notices it. -/
theorem sameTree_patch (h : I.Ok) {i k b : Nat} {inode : Inode} {s : Slot}
    (hi : Taken I.sb.reservedInodesMask i) (hget : I.inodes i = some inode)
    (hk : k < inode.blocksCount) (hblock : I.block i k = some (b, s))
    (hs : s.info.recordsCount = 0) {offset : Nat} {piece : List UInt8}
    (hfit : offset + piece.length ≤ 121) : SameTree I (I.setSlot b (s.fill offset piece)) := by
  have hok := h.layout.inodeOk hi hget
  obtain ⟨hdata, _, _, hslot, _⟩ := hok.data_block hget hk hblock hs
  exact h.sameTree_setSlot hslot (by rw [hdata.records_eq, (fill_isData hdata hfit).records_eq])

/-- **A directory block is spoiled**: the header of its first block counts data. -/
theorem spoil (h : I.Ok) {i k b : Nat} {inode : Inode} {s : Slot}
    (hi : Taken I.sb.reservedInodesMask i) (hroot : i ≠ 0) (hget : I.inodes i = some inode)
    (hk : k < inode.blocksCount) (hblock : I.block i k = some (b, s))
    (hs : s.info.recordsCount ≠ 0) (n : Nat) :
    (I.setSlot b ⟨{ s.info with dataSize := n }, s.body⟩).Ok := by
  have hok := h.layout.inodeOk hi hget
  obtain ⟨hrec, hk0, hkind, hb, hslot, hh⟩ := hok.records_block hget hk hblock hs
  refine h.setSlot hi hget hk hb hslot ⟨hh.blockId_eq, hh.inodeId_eq, ?_⟩ rfl
    fun h0 => absurd h0 hroot
  rw [if_pos ⟨hk0, hkind⟩]
  exact hrec

/-- **A block is reserved** and listed by nobody. -/
theorem takeBlock (h : I.Ok) {b : Nat} (hb : firstFree I.sb.reservedBlocksMask = some b) :
    (I.takeBlock b).Ok :=
  h.scratch rfl rfl ((List.length_set ..).trans h.layout.blocksLength)
    (fun _ hx => (taken_set (firstFree_eq_some_iff.mp hb).1).mpr (Or.inr hx)) (fun _ _ => rfl)
    (fun _ _ => rfl) rfl

/-- **A block with data is appended** to an inode. -/
theorem append (h : I.Ok) {i b : Nat} {inode : Inode}
    (hi : Taken I.sb.reservedInodesMask i) (hget : I.inodes i = some inode)
    (hcount : inode.blocksCount ≠ 8) (hb : firstFree I.sb.reservedBlocksMask = some b)
    {offset : Nat} {piece : List UInt8} (hfit : offset + piece.length ≤ 121) :
    (((I.takeBlock b).setInode (grown inode b)).setSlot b (appendedSlot i b offset piece)).Ok :=
  h.grow hi hget hcount hb (appendedSlot_isData i b hfit) rfl rfl

end Ok

/-! ### The loop as a relation -/

/-- The loop of `write_to_file` on inode `i`, turn by turn. -/
inductive WriteRun (i : Nat) : Image → Nat → List UInt8 → WriteEnd → Prop where
  /-- Everything is written. -/
  | done (I : Image) (pos : Nat) : WriteRun i I pos [] ⟨I, pos, [], .complete, []⟩
  /-- A piece goes into a data block the inode lists. -/
  | patch {I : Image} {pos b : Nat} {data : List UInt8} {inode : Inode} {s : Slot} {r : WriteEnd}
    (hd : data ≠ []) (hget : I.inodes i = some inode) (hk : pos / 121 < inode.blocksCount)
    (hblock : I.block i (pos / 121) = some (b, s)) (hs : s.info.recordsCount = 0)
    (next : WriteRun i (I.setSlot b (s.fill (pos % 121) (data.take (121 - pos % 121))))
      (pos + (data.take (121 - pos % 121)).length) (data.drop (121 - pos % 121)) r) :
    WriteRun i I pos data
      (r.after [I.setSlot b (s.fill (pos % 121) (data.take (121 - pos % 121)))])
  /-- The first block of a directory is rejected after its header was written. -/
  | spoil {I : Image} {pos b : Nat} {data : List UInt8} {inode : Inode} {s : Slot}
    (hd : data ≠ []) (hget : I.inodes i = some inode) (hk : pos / 121 < inode.blocksCount)
    (hblock : I.block i (pos / 121) = some (b, s)) (hs : s.info.recordsCount ≠ 0)
    (hz : s.info.dataSize = 0) :
    WriteRun i I pos data
      ⟨I.setSlot b ⟨{ s.info with
          dataSize := pos % 121 + (data.take (121 - pos % 121)).length }, s.body⟩, pos, data,
        .rejected .exit, [I.setSlot b ⟨{ s.info with
          dataSize := pos % 121 + (data.take (121 - pos % 121)).length }, s.body⟩]⟩
  /-- `read_block` crashes on a spoiled block. -/
  | reject {I : Image} {pos b : Nat} {data : List UInt8} {inode : Inode} {s : Slot}
    (hd : data ≠ []) (hget : I.inodes i = some inode) (hk : pos / 121 < inode.blocksCount)
    (hblock : I.block i (pos / 121) = some (b, s)) (hs : s.Mixed) :
    WriteRun i I pos data ⟨I, pos, data, .rejected .memoryError, []⟩
  /-- No block is free. -/
  | noBlock {I : Image} {pos : Nat} {data : List UInt8} {inode : Inode}
    (hd : data ≠ []) (hget : I.inodes i = some inode) (hk : inode.blocksCount ≤ pos / 121)
    (hb : firstFree I.sb.reservedBlocksMask = none) :
    WriteRun i I pos data ⟨I, pos, data, .exhausted, []⟩
  /-- A block is reserved, but the inode has no entry left for it. -/
  | noEntry {I : Image} {pos b : Nat} {data : List UInt8} {inode : Inode}
    (hd : data ≠ []) (hget : I.inodes i = some inode) (hk : inode.blocksCount ≤ pos / 121)
    (hb : firstFree I.sb.reservedBlocksMask = some b) (hcount : inode.blocksCount = 8) :
    WriteRun i I pos data ⟨I.takeBlock b, pos, data, .exhausted, []⟩
  /-- A fresh block is appended, whatever the index of the position. -/
  | append {I : Image} {pos b : Nat} {data : List UInt8} {inode : Inode} {r : WriteEnd}
    (hd : data ≠ []) (hget : I.inodes i = some inode) (hk : inode.blocksCount ≤ pos / 121)
    (hb : firstFree I.sb.reservedBlocksMask = some b) (hcount : inode.blocksCount ≠ 8)
    (next : WriteRun i (((I.takeBlock b).setInode (grown inode b)).setSlot b
        (appendedSlot i b (pos % 121) (data.take (121 - pos % 121))))
      (pos + (data.take (121 - pos % 121)).length) (data.drop (121 - pos % 121)) r) :
    WriteRun i I pos data
      (r.after [(I.takeBlock b).setInode (grown inode b),
        ((I.takeBlock b).setInode (grown inode b)).setSlot b
          (appendedSlot i b (pos % 121) (data.take (121 - pos % 121)))])

/-- The data left over after a turn is shorter. -/
theorem length_rest_lt (pos : Nat) {data : List UInt8} (hd : data ≠ []) :
    (data.drop (121 - pos % 121)).length < data.length := by
  have := List.length_pos_iff.mpr hd
  rw [List.length_drop]
  omega

/-- **The loop is total**: with enough fuel `writeTurns` runs it to one of its ends. -/
theorem Ok.writeRun (h : I.Ok) {i : Nat} (hi : Taken I.sb.reservedInodesMask i) (fuel pos : Nat)
    (data : List UInt8) (hf : data.length ≤ fuel) :
    WriteRun i I pos data (writeTurns i fuel I pos data) := by
  -- by induction on the turns: each branch of the loop is a step of the run
  induction fuel generalizing I pos data with
  | zero =>
    obtain rfl : data = [] := List.eq_nil_of_length_eq_zero (by omega)
    exact .done I pos
  | succ fuel ih =>
    by_cases hd : data = []
    · subst hd
      simp only [writeTurns, if_true]
      exact .done I pos
    obtain ⟨inode, hget, hok⟩ := h.layout.inode hi
    have hrest : (data.drop (121 - pos % 121)).length ≤ fuel := by
      have := length_rest_lt pos hd
      omega
    have hfit := piece_fits pos data
    simp only [writeTurns, if_neg hd, hget]
    by_cases hk : pos / 121 < inode.blocksCount
    · obtain ⟨b, s, hb, _, hslot, _⟩ := hok.getElem hk
      have hblock := block_eq hget hb hslot
      simp only [if_pos hk, hblock]
      by_cases hs : s.info.recordsCount = 0
      · rw [if_pos hs]
        exact .patch hd hget hk hblock hs
          (ih (h.patch hi hget hk hblock hs hfit) hi _ _ hrest)
      · rw [if_neg hs]
        by_cases hz : s.info.dataSize = 0
        · rw [if_pos hz]
          exact .spoil hd hget hk hblock hs hz
        · rw [if_neg hz]
          exact .reject hd hget hk hblock ⟨hs, hz⟩
    · rw [if_neg hk]
      have hk := Nat.not_lt.mp hk
      rcases hb : firstFree I.sb.reservedBlocksMask with _ | b
      · exact .noBlock hd hget hk hb
      · simp only
        by_cases hcount : inode.blocksCount = 8
        · rw [if_pos hcount]
          exact .noEntry hd hget hk hb hcount
        · rw [if_neg hcount]
          exact .append hd hget hk hb hcount (ih (h.append hi hget hcount hb hfit) hi _ _ hrest)

/-- **The loop keeps the invariant**, with the superblock it has in memory. -/
theorem WriteRun.ok {i pos : Nat} {data : List UInt8} {r : WriteEnd}
    (hrun : WriteRun i I pos data r) (h : I.Ok) (hi : Taken I.sb.reservedInodesMask i)
    (hroot : i ≠ 0) : r.image.Ok := by
  induction hrun with
  | done => exact h
  | patch hd hget hk hblock hs next ih =>
    exact ih (h.patch hi hget hk hblock hs (piece_fits _ _)) hi
  | spoil hd hget hk hblock hs hz => exact h.spoil hi hroot hget hk hblock hs _
  | reject => exact h
  | noBlock => exact h
  | noEntry hd hget hk hb hcount => exact h.takeBlock hb
  | append hd hget hk hb hcount next ih =>
    exact ih (h.append hi hget hcount hb (piece_fits _ _)) hi

/-- The record of the inode at the end of the loop. -/
theorem WriteRun.inode_grows {i pos : Nat} {data : List UInt8} {r : WriteEnd}
    (hrun : WriteRun i I pos data r) (h : I.Ok) (hi : Taken I.sb.reservedInodesMask i)
    {inode : Inode} (hget : I.inodes i = some inode) :
    ∃ inode', r.image.inodes i = some inode' ∧ inode'.isFile = inode.isFile ∧
      inode.blocksCount ≤ inode'.blocksCount ∧
      (pos ≤ 968 + 121 * inode.blocksCount → r.pos ≤ 968 + 121 * inode'.blocksCount) := by
  induction hrun generalizing inode with
  | done => exact ⟨inode, hget, rfl, Nat.le_refl _, id⟩
  | @patch I pos b data inode' s r hd hget' hk hblock hs next ih =>
    rw [hget] at hget'
    cases hget'
    obtain ⟨inode', hfinal, hkind, hle, hpos⟩ :=
      ih (h.patch hi hget hk hblock hs (piece_fits _ _)) hi hget
    refine ⟨inode', hfinal, hkind, hle, fun _ => hpos ?_⟩
    have hok := h.layout.inodeOk hi hget
    have hfit := piece_fits pos data
    have := hok.count_le
    omega
  | spoil => exact ⟨inode, hget, rfl, Nat.le_refl _, id⟩
  | reject => exact ⟨inode, hget, rfl, Nat.le_refl _, id⟩
  | noBlock => exact ⟨inode, hget, rfl, Nat.le_refl _, id⟩
  | noEntry => exact ⟨inode, hget, rfl, Nat.le_refl _, id⟩
  | @append I pos b data inode₁ r hd hget' hk hb hcount next ih =>
    obtain rfl : inode₁ = inode := by
      rw [hget] at hget'
      exact (Option.some.inj hget').symm
    have hok := h.layout.inodeOk hi hget
    have hnext : ((I.takeBlock b).setInode (grown inode₁ b)).inodes i = some (grown inode₁ b) :=
      setInode_grown hok.id_eq _
    obtain ⟨inode', hfinal, hkind, hle, hpos⟩ :=
      ih (h.append hi hget hcount hb (piece_fits _ _)) hi hnext
    refine ⟨inode', hfinal, hkind, (Nat.le_succ _).trans hle, fun hp => hpos ?_⟩
    have hfit := piece_fits pos data
    simp only [grown]
    omega

/-- **No directory notices a write**: reserved inodes, kinds and records stay as they are. -/
theorem WriteRun.sameTree {i pos : Nat} {data : List UInt8} {r : WriteEnd}
    (hrun : WriteRun i I pos data r) (h : I.Ok) (hi : Taken I.sb.reservedInodesMask i) :
    SameTree I r.image := by
  induction hrun with
  | done => exact SameTree.refl _
  | patch hd hget hk hblock hs next ih =>
    exact (h.sameTree_patch hi hget hk hblock hs (piece_fits _ _)).trans
      (ih (h.patch hi hget hk hblock hs (piece_fits _ _)) hi)
  | spoil hd hget hk hblock hs hz =>
    obtain ⟨_, _, _, hslot⟩ := block_cases hblock
    exact h.sameTree_setSlot hslot rfl
  | reject => exact SameTree.refl _
  | noBlock => exact SameTree.refl _
  | noEntry => exact ⟨(SameTree.refl _).grows, fun _ => Iff.rfl, fun _ => Iff.rfl, fun _ _ => rfl⟩
  | append hd hget hk hb hcount next ih =>
    exact (h.sameTree_grow hi hget hb _).trans
      (ih (h.append hi hget hcount hb (piece_fits _ _)) hi)

/-- The loop leaves the descriptor table alone. -/
theorem WriteRun.dt {i pos : Nat} {data : List UInt8} {r : WriteEnd}
    (hrun : WriteRun i I pos data r) : r.image.dt = I.dt := by
  induction hrun with
  | done => rfl
  | patch _ _ _ _ _ _ ih => exact ih
  | spoil => rfl
  | reject => rfl
  | noBlock => rfl
  | noEntry => rfl
  | append _ _ _ _ _ _ ih => exact ih

/-- The loop reserves no inode. -/
theorem WriteRun.inodesMask {i pos : Nat} {data : List UInt8} {r : WriteEnd}
    (hrun : WriteRun i I pos data r) :
    r.image.sb.reservedInodesMask = I.sb.reservedInodesMask := by
  induction hrun with
  | done => rfl
  | patch _ _ _ _ _ _ ih => exact ih
  | spoil => rfl
  | reject => rfl
  | noBlock => rfl
  | noEntry => rfl
  | append _ _ _ _ _ _ ih => exact ih

/-- The position after a turn that leaves data over. -/
theorem pos_after_turn (pos : Nat) {data : List UInt8} (hd : data.drop (121 - pos % 121) ≠ []) :
    121 ≤ pos + (data.take (121 - pos % 121)).length := by
  have := List.length_pos_iff.mpr hd
  rw [List.length_drop] at this
  rw [List.length_take]
  omega

/-- Only the first block of an inode is ever rejected. -/
theorem WriteRun.not_rejected {i pos : Nat} {data : List UInt8} {r : WriteEnd}
    (hrun : WriteRun i I pos data r) (h : I.Ok) (hi : Taken I.sb.reservedInodesMask i)
    (hpos : data = [] ∨ 121 ≤ pos) : r.ending.isRejected = false := by
  have hfirst : ∀ {I : Image} {pos b : Nat} {data : List UInt8} {inode : Inode} {s : Slot},
      I.Ok → Taken I.sb.reservedInodesMask i → data ≠ [] → (data = [] ∨ 121 ≤ pos) →
      I.inodes i = some inode → pos / 121 < inode.blocksCount →
      I.block i (pos / 121) = some (b, s) → s.info.recordsCount = 0 := by
    intro I pos b data inode s h hi hd hpos hget hk hblock
    have hok := h.layout.inodeOk hi hget
    by_contra hs
    have := (hok.records_block hget hk hblock hs).2.1
    have := hpos.resolve_left hd
    omega
  induction hrun with
  | done => rfl
  | patch hd hget hk hblock hs next ih =>
    refine ih (h.patch hi hget hk hblock hs (piece_fits _ _)) hi ?_
    exact or_iff_not_imp_left.mpr fun hrest => pos_after_turn _ hrest
  | spoil hd hget hk hblock hs hz => exact absurd (hfirst h hi hd hpos hget hk hblock) hs
  | reject hd hget hk hblock hs => exact absurd (hfirst h hi hd hpos hget hk hblock) hs.1
  | noBlock => rfl
  | noEntry => rfl
  | append hd hget hk hb hcount next ih =>
    refine ih (h.append hi hget hcount hb (piece_fits _ _)) hi ?_
    exact or_iff_not_imp_left.mpr fun hrest => pos_after_turn _ hrest

/-- A rejected write reserved nothing. -/
theorem WriteRun.rejected_sb {i pos : Nat} {data : List UInt8} {r : WriteEnd}
    (hrun : WriteRun i I pos data r) (h : I.Ok) (hi : Taken I.sb.reservedInodesMask i)
    (hr : r.ending.isRejected = true) : r.image.sb = I.sb := by
  cases hrun with
  | done => cases hr
  | patch hd hget hk hblock hs next =>
    have hne := next.not_rejected (h.patch hi hget hk hblock hs (piece_fits _ _)) hi
      (or_iff_not_imp_left.mpr fun hrest => pos_after_turn _ hrest)
    exact absurd (hne.symm.trans hr) Bool.false_ne_true
  | spoil => rfl
  | reject => rfl
  | noBlock => cases hr
  | noEntry => cases hr
  | append hd hget hk hb hcount next =>
    have hne := next.not_rejected (h.append hi hget hcount hb (piece_fits _ _)) hi
      (or_iff_not_imp_left.mpr fun hrest => pos_after_turn _ hrest)
    exact absurd (hne.symm.trans hr) Bool.false_ne_true

/-- The inode of a reserved descriptor. -/
theorem Ok.descriptor (h : I.Ok) {fd i : Nat} (hres : I.dt.reservedFd[fd]? = some true)
    (hi : I.dt.fdToInode[fd]? = some i) : Taken I.sb.reservedInodesMask i ∧ i ≠ 0 := by
  have hlt := (List.getElem?_eq_some_iff.mp hi).1
  rw [h.table.inodeLength, ← h.table.positionLength] at hlt
  have hnamed := h.table.used ⟨hres, hi, List.getElem?_eq_getElem hlt⟩
  obtain ⟨d, hd, e, he, rfl⟩ := id hnamed
  exact ⟨h.directories.tree.live_of_named hnamed, h.directories.tree.child_ne_root hd he⟩

end Image

end MiniExt
