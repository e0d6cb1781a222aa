import MiniExt.Invariant.Turns
import MiniExt.Lib.Chunks

namespace MiniExt

open Lib

/-!
# Files as lists of chunks

The data of a file is a list of chunks, one per block, of at most 121 bytes.  A write on a
regular file is `Lib.writeChunks` on that list, with room for as many chunks as there are
free blocks and free entries of the block list; on every other inode it does nothing.

* `SameInode` — an inode and its blocks, from one image to the next;
* `Ok.bounded_chunks`, `Ok.length_chunks` — the chunks of a file;
* `WriteRun.sameInode` — a write leaves the other inodes alone;
* `WriteRun.chunks` — the simulation of the loop by `Lib.writeChunks`.
-/

namespace Image

variable {I J K : Image}

/-! ### Inodes that stay as they are -/

/-- Inode `i` and the blocks it lists are the same in both images. -/
structure SameInode (i : Nat) (I J : Image) : Prop where
  inode : J.inodes i = I.inodes i
  slots : ∀ inode, I.inodes i = some inode → ∀ b ∈ inode.blocks, J.slots b = I.slots b

/-- An image has the inode it has. -/
theorem SameInode.refl (i : Nat) (I : Image) : SameInode i I I :=
  ⟨rfl, fun _ _ _ _ => rfl⟩

/-- Two changes that keep an inode keep it together. -/
theorem SameInode.trans {i : Nat} (h : SameInode i I J) (h' : SameInode i J K) :
    SameInode i I K where
  inode := h'.inode.trans h.inode
  slots inode hget b hb :=
    (h'.slots inode (h.inode.trans hget) b hb).trans (h.slots inode hget b hb)

/-- An inode that stays as it is keeps its data. -/
theorem SameInode.chunks {i : Nat} (h : SameInode i I J) : J.store.chunks i = I.store.chunks i := by
  simp only [Store.chunks, Store.blocksOf, store_inodes, h.inode, store_slots]
  rcases hget : I.inodes i with _ | inode
  · rfl
  · refine List.map_congr_left fun b hb => ?_
    rw [h.slots inode hget b hb]

section Frames

variable {i j : Nat}

/-- A block of another inode is rewritten. -/
theorem Ok.sameInode_setSlot (h : I.Ok) (hi : Taken I.sb.reservedInodesMask i)
    (hj : Taken I.sb.reservedInodesMask j) (hij : j ≠ i) {k b : Nat} {inode : Inode}
    (hget : I.inodes i = some inode) (hk : k < inode.blocksCount)
    (hb : inode.blockIds[k]? = some b) (s : Slot) : SameInode j I (I.setSlot b s) where
  inode := rfl
  slots inode' hget' x hx := by
    apply setSlot_slots_ne
    rintro rfl
    have hok := h.layout.inodeOk hi hget
    have hok' := h.layout.inodeOk hj hget'
    obtain ⟨_, s', hs, hh⟩ := hok.block hk hb
    obtain ⟨k', hk', hb'⟩ := mem_blocks.mp hx
    exact hij (hok'.owner hk' hb' hs hh.inodeId_eq)

/-- Nothing an inode refers to is free. -/
theorem Ok.sameInode_scratch (h : I.Ok) (hj : Taken I.sb.reservedInodesMask j)
    (hinode : J.inodes j = I.inodes j)
    (hslots : ∀ b, Taken I.sb.reservedBlocksMask b → J.slots b = I.slots b) : SameInode j I J where
  inode := hinode
  slots inode hget b hb := by
    have hok := h.layout.inodeOk hj hget
    obtain ⟨k, hk, hb⟩ := mem_blocks.mp hb
    exact hslots b (hok.block hk hb).1

/-- Another inode grows. -/
theorem Ok.sameInode_append (h : I.Ok) (hi : Taken I.sb.reservedInodesMask i)
    (hj : Taken I.sb.reservedInodesMask j) (hij : j ≠ i) {b : Nat} {inode : Inode}
    (hget : I.inodes i = some inode) (hb : firstFree I.sb.reservedBlocksMask = some b) (s : Slot) :
    SameInode j I (((I.takeBlock b).setInode (grown inode b)).setSlot b s) := by
  have hok := h.layout.inodeOk hi hget
  obtain ⟨_, hfree, _⟩ := firstFree_eq_some_iff.mp hb
  have hid : (grown inode b).id = i := hok.id_eq
  refine h.sameInode_scratch hj (setInode_inodes_ne _ _ (by rwa [hid])) fun x hx => ?_
  exact setSlot_slots_ne _ s fun heq => hfree (heq ▸ hx)

/-- **A write leaves the other inodes alone.** -/
theorem WriteRun.sameInode {pos : Nat} {data : List UInt8} {r : WriteEnd}
    (hrun : WriteRun i I pos data r) (h : I.Ok) (hi : Taken I.sb.reservedInodesMask i)
    (hj : Taken I.sb.reservedInodesMask j) (hij : j ≠ i) : SameInode j I r.image := by
  induction hrun with
  | done => exact SameInode.refl j _
  | patch hd hget hk hblock hs next ih =>
    obtain ⟨hb, _⟩ := block_entry hblock hget
    exact (h.sameInode_setSlot hi hj hij hget hk hb _).trans
      (ih (h.patch hi hget hk hblock hs (piece_fits _ _)) hi hj)
  | spoil hd hget hk hblock hs hz =>
    obtain ⟨hb, _⟩ := block_entry hblock hget
    exact h.sameInode_setSlot hi hj hij hget hk hb _
  | reject => exact SameInode.refl j _
  | noBlock => exact SameInode.refl j _
  | noEntry => exact ⟨rfl, fun _ _ _ _ => rfl⟩
  | append hd hget hk hb hcount next ih =>
    exact (h.sameInode_append hi hj hij hget hb _).trans
      (ih (h.append hi hget hcount hb (piece_fits _ _)) hi hj)

end Frames

/-! ### The chunks of a file -/

section Chunks

variable {i : Nat} {inode : Inode}

/-- The chunks of an inode are what is visible of its blocks. -/
theorem chunks_eq (hget : I.inodes i = some inode) :
    I.store.chunks i = inode.blocks.map fun b =>
      match I.slots b with
      | some s => s.visible
      | none => [] := by
  have hblocks : I.store.blocksOf i = inode.blocks := by
    simp only [Store.blocksOf, store_inodes, hget]
  exact congrArg (List.map _) hblocks

/-- An inode has as many blocks as it counts. -/
theorem InodeOk.length_blocks (h : I.InodeOk i inode) :
    inode.blocks.length = inode.blocksCount := by
  rw [Inode.blocks, List.length_take, h.length_eq]
  exact Nat.min_eq_left h.count_le

/-- And as many chunks. -/
theorem InodeOk.length_chunks (h : I.InodeOk i inode) (hget : I.inodes i = some inode) :
    (I.store.chunks i).length = inode.blocksCount := by
  rw [chunks_eq hget, List.length_map, h.length_blocks]

/-- A chunk is what is visible in its block. -/
theorem InodeOk.getElem?_chunks (h : I.InodeOk i inode) (hget : I.inodes i = some inode) {k : Nat}
    (hk : k < inode.blocksCount) :
    ∃ b s, inode.blockIds[k]? = some b ∧ I.slots b = some s ∧ s.Holds i k b inode.isFile ∧
      (I.store.chunks i)[k]? = some s.visible := by
  obtain ⟨b, s, hb, _, hs, hh⟩ := h.getElem hk
  refine ⟨b, s, hb, hs, hh, ?_⟩
  have hblocks : inode.blocks[k]? = some b := by
    rw [Inode.blocks, List.getElem?_take, if_pos hk, hb]
  rw [chunks_eq hget, List.getElem?_map, hblocks, Option.map_some, hs]

/-- No chunk of a regular file is longer than a block. -/
theorem InodeOk.bounded_chunks (h : I.InodeOk i inode) (hget : I.inodes i = some inode)
    (hfile : inode.isFile = true) : Bounded 121 (I.store.chunks i) := by
  intro v hv
  obtain ⟨k, hk, hkv⟩ := List.getElem_of_mem hv
  rw [h.length_chunks hget] at hk
  obtain ⟨b, s, _, _, hh, hchunk⟩ := h.getElem?_chunks hget hk
  rw [hfile] at hh
  have hdata := hh.isData
  have : v = s.visible := by
    rw [List.getElem?_eq_getElem (by rwa [h.length_chunks hget])] at hchunk
    exact hkv.symm.trans (Option.some.inj hchunk)
  rw [this, Slot.length_visible_le hdata]
  exact hdata.2.1

end Chunks

/-! ### The chunks a turn leaves -/

/-- The first bytes of the buffer of a block are its data, filled up with zeros. -/
theorem take_buffer {s : Slot} (hlen : s.visible.length ≤ 121) {o : Nat} (ho : o ≤ 121) :
    s.buffer.take o = padTo 0 o s.visible := by
  simp only [Slot.buffer, padTo, List.take_append, List.take_replicate]
  congr 2
  omega

/-- What is visible in a block after a piece was stored in it. -/
theorem visible_fill {s : Slot} (hlen : s.visible.length ≤ 121) {o : Nat} {piece : List UInt8}
    (hfit : o + piece.length ≤ 121) : (s.fill o piece).visible = patch 0 o piece s.visible := by
  have hbuf : s.buffer.length = 121 := by
    simp only [Slot.buffer, List.length_append, List.length_replicate]
    omega
  have hhead : (s.buffer.take o ++ piece).length = o + piece.length := by
    rw [List.length_append, List.length_take, hbuf]
    omega
  simp only [Slot.visible, Slot.fill, memcpy]
  rw [← hhead, List.take_left', take_buffer hlen (by omega)]
  · rfl
  · rfl

section Turns

variable {i : Nat} {inode : Inode}

/-- A piece stored in block `k` changes chunk `k`. -/
theorem InodeOk.chunks_patch (h : I.InodeOk i inode) (hget : I.inodes i = some inode) {k b : Nat}
    {s : Slot} (hk : k < inode.blocksCount) (hblock : I.block i k = some (b, s)) (hs : s.IsData)
    {o : Nat} {piece : List UInt8} (hfit : o + piece.length ≤ 121) :
    (I.setSlot b (s.fill o piece)).store.chunks i =
      (I.store.chunks i).modify k (patch 0 o piece) := by
  obtain ⟨hb, hslot⟩ := block_entry hblock hget
  have hlen : s.visible.length ≤ 121 := (Slot.length_visible_le hs).trans_le hs.2.1
  rw [chunks_eq (I := I.setSlot b (s.fill o piece)) hget, chunks_eq hget]
  refine List.ext_getElem? fun j => ?_
  rw [List.getElem?_map, List.getElem?_modify, List.getElem?_map]
  rcases hj : inode.blocks[j]? with _ | x
  · rfl
  have hjlt : j < inode.blocksCount := by
    rw [← h.length_blocks]
    exact (List.getElem?_eq_some_iff.mp hj).1
  have hjx : inode.blockIds[j]? = some x := by
    rwa [Inode.blocks, List.getElem?_take, if_pos hjlt] at hj
  simp only [Option.map_some, Option.map_eq_map]
  by_cases hkj : k = j
  · subst hkj
    rw [hb] at hjx
    cases hjx
    rw [if_pos rfl, setSlot_slots_self, hslot]
    exact congrArg some (visible_fill hlen hfit)
  · have hxb : x ≠ b := fun heq => hkj (h.index_unique hk hjlt hb (heq ▸ hjx))
    rw [if_neg hkj, setSlot_slots_ne _ _ hxb]

/-- An appended block is a new last chunk. -/
theorem InodeOk.chunks_append (h : I.InodeOk i inode) (hget : I.inodes i = some inode) {b : Nat}
    (hb : firstFree I.sb.reservedBlocksMask = some b) (hcount : inode.blocksCount ≠ 8) {o : Nat}
    {piece : List UInt8} (hfit : o + piece.length ≤ 121) :
    (((I.takeBlock b).setInode (grown inode b)).setSlot b
        (appendedSlot i b o piece)).store.chunks i =
      I.store.chunks i ++ [patch 0 o piece []] := by
  obtain ⟨_, hfree, _⟩ := firstFree_eq_some_iff.mp hb
  have hgrown : (((I.takeBlock b).setInode (grown inode b)).setSlot b
      (appendedSlot i b o piece)).inodes i = some (grown inode b) := setInode_grown h.id_eq _
  have hcount : inode.blocksCount < 8 := lt_of_le_of_ne h.count_le hcount
  rw [chunks_eq hgrown, chunks_eq hget, h.grown_blocks b hcount, List.map_append]
  congr 1
  · refine List.map_congr_left fun x hx => ?_
    obtain ⟨k, hk, hkx⟩ := mem_blocks.mp hx
    have hxb : x ≠ b := fun heq => hfree (heq ▸ (h.block hk hkx).1)
    rw [setSlot_slots_ne _ _ hxb]
    rfl
  · have hempty : (⟨⟨b, i, 0, 0⟩, .unwritten⟩ : Slot).visible.length ≤ 121 := Nat.zero_le 121
    rw [List.map_singleton, setSlot_slots_self]
    exact congrArg (· :: []) (visible_fill hempty hfit)

end Turns

/-- How many blocks a write can append to an inode. -/
def room (I : Image) (inode : Inode) : Nat :=
  min (free I.sb.reservedBlocksMask) (8 - inode.blocksCount)

/-- An append takes one free block and one entry of the list. -/
theorem room_append {i b : Nat} {inode : Inode} (hok : I.InodeOk i inode) {s : Slot}
    (hb : firstFree I.sb.reservedBlocksMask = some b) (hcount : inode.blocksCount ≠ 8) :
    I.room inode =
      (((I.takeBlock b).setInode (grown inode b)).setSlot b s).room (grown inode b) + 1 := by
  have hpos := free_pos_of_firstFree hb
  have hfree : free (I.takeBlock b).sb.reservedBlocksMask = free I.sb.reservedBlocksMask - 1 :=
    free_set hb
  have hle := hok.count_le
  simp only [room, setSlot_sb, setInode_sb, hfree, grown]
  omega

/-- **The simulation.**  A write on a regular file is `Lib.writeChunks` on its chunks: it is
    complete, or out of room with the data that `Lib.writeChunks` leaves over. -/
theorem WriteRun.chunks {i pos : Nat} {data : List UInt8} {r : WriteEnd}
    (hrun : WriteRun i I pos data r) (h : I.Ok) (hi : Taken I.sb.reservedInodesMask i)
    {inode : Inode} (hget : I.inodes i = some inode) (hfile : inode.isFile = true) (fuel : Nat)
    (hfuel : data.length ≤ fuel) :
    writeChunks 0 121 fuel (I.store.chunks i) (I.room inode) pos data =
        (r.image.store.chunks i, r.rest) ∧
      r.pos + r.rest.length = pos + data.length ∧
      r.ending = if r.rest = [] then .complete else .exhausted := by
  -- by induction on the run: each step writes one piece into one chunk
  induction hrun generalizing inode fuel with
  | done I pos => exact ⟨writeChunks_nil .., rfl, rfl⟩
  | @patch I pos b data inode₁ s r hd hget₁ hk hblock hs next ih =>
    rw [hget] at hget₁
    cases hget₁
    obtain ⟨fuel, rfl⟩ : ∃ n, fuel = n + 1 := ⟨fuel - 1, by
      have := List.length_pos_iff.mpr hd
      omega⟩
    have hok := h.layout.inodeOk hi hget
    obtain ⟨hdata, _⟩ := hok.data_block hget hk hblock hs
    have hfit := piece_fits pos data
    have hrest := length_rest_lt pos hd
    obtain ⟨hchunks, hpos, hend⟩ := ih (h.patch hi hget hk hblock hs hfit) hi hget hfile fuel
      (by omega)
    rw [writeChunks_patch hd (by rwa [hok.length_chunks hget]),
      ← hok.chunks_patch hget hk hblock hdata hfit]
    refine ⟨hchunks, ?_, hend⟩
    have := congrArg List.length (List.take_append_drop (121 - pos % 121) data)
    rw [List.length_append] at this
    simp only [WriteEnd.after] at hpos ⊢
    omega
  | @spoil I pos b data inode₁ s hd hget₁ hk hblock hs hz =>
    -- the blocks of a file count no records
    rw [hget] at hget₁
    cases hget₁
    have hok := h.layout.inodeOk hi hget
    have := (hok.records_block hget hk hblock hs).2.2.1
    rw [hfile] at this
    cases this
  | @reject I pos b data inode₁ s hd hget₁ hk hblock hs =>
    rw [hget] at hget₁
    cases hget₁
    have hok := h.layout.inodeOk hi hget
    have := (hok.records_block hget hk hblock hs.1).2.2.1
    rw [hfile] at this
    cases this
  | @noBlock I pos data inode₁ hd hget₁ hk hb =>
    -- without a free block there is no room
    rw [hget] at hget₁
    cases hget₁
    have hok := h.layout.inodeOk hi hget
    have hroom : I.room inode₁ = 0 := by
      rw [room, firstFree_eq_none_iff.mp hb]
      exact Nat.zero_min _
    rw [hroom, writeChunks_full (by rwa [hok.length_chunks hget])]
    exact ⟨rfl, rfl, (if_neg hd).symm⟩
  | @noEntry I pos b data inode₁ hd hget₁ hk hb hcount =>
    -- nor with a full list
    rw [hget] at hget₁
    cases hget₁
    have hok := h.layout.inodeOk hi hget
    have hroom : I.room inode₁ = 0 := by
      rw [room, hcount]
      exact Nat.min_zero _
    rw [hroom, writeChunks_full (by rwa [hok.length_chunks hget])]
    exact ⟨rfl, rfl, (if_neg hd).symm⟩
  | @append I pos b data inode₁ r hd hget₁ hk hb hcount next ih =>
    rw [hget] at hget₁
    cases hget₁
    obtain ⟨fuel, rfl⟩ : ∃ n, fuel = n + 1 := ⟨fuel - 1, by
      have := List.length_pos_iff.mpr hd
      omega⟩
    have hok := h.layout.inodeOk hi hget
    have hfit := piece_fits pos data
    have hrest := length_rest_lt pos hd
    have hgrown : (((I.takeBlock b).setInode (grown inode₁ b)).setSlot b
        (appendedSlot i b (pos % 121) (data.take (121 - pos % 121)))).inodes i =
          some (grown inode₁ b) := setInode_grown hok.id_eq _
    obtain ⟨hchunks, hpos, hend⟩ := ih (h.append hi hget hcount hb hfit) hi hgrown hfile fuel
      (by omega)
    -- the new chunk uses up one of the room
    rw [room_append hok hb hcount, writeChunks_append hd (by rwa [hok.length_chunks hget]),
      ← hok.chunks_append hget hb hcount hfit]
    refine ⟨hchunks, ?_, hend⟩
    have := congrArg List.length (List.take_append_drop (121 - pos % 121) data)
    rw [List.length_append] at this
    simp only [WriteEnd.after] at hpos ⊢
    omega

end Image

end MiniExt
