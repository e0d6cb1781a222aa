import MiniExt.Invariant.Basic

namespace MiniExt

open Lib

/-!
# Changes that keep the layout

One lemma per kind of change: a block that its owner rewrites, blocks and records that
nobody refers to, a block list that grows, a new inode.

* `Layout.update` — the common rule: one inode changes, and every other inode finds its
  record and its blocks as they were;
* `Layout.mono`, `Layout.setSlot`, `Layout.grow`, `Layout.alloc` — the changes.
-/

namespace Image

variable {I J : Image}

/-! ### The layout -/

/-- An inode stays well-formed when its blocks stay and the mask grows. -/
theorem InodeOk.mono {i : Nat} {inode : Inode} (h : I.InodeOk i inode)
    (hmask : ∀ b, Taken I.sb.reservedBlocksMask b → Taken J.sb.reservedBlocksMask b)
    (hslots : ∀ b ∈ inode.blocks, J.slots b = I.slots b) : J.InodeOk i inode where
  id_eq := h.id_eq
  count_pos := h.count_pos
  count_le := h.count_le
  length_eq := h.length_eq
  unused := h.unused
  nodup := h.nodup
  block hk hb := by
    obtain ⟨ht, s, hs, hh⟩ := h.block hk hb
    exact ⟨hmask _ ht, s, (hslots _ (mem_blocks.mpr ⟨_, hk, hb⟩)).trans hs, hh⟩

/-- The record of an inode after a block was appended. -/
theorem setInode_grown {i b : Nat} {inode : Inode} (hid : inode.id = i) (J : Image) :
    (J.setInode (grown inode b)).inodes i = some (grown inode b) := by
  subst hid
  exact setInode_inodes_self J (grown inode b)

/-- The blocks an inode lists after one was appended. -/
theorem InodeOk.grown_blocks {i : Nat} {inode : Inode} (h : I.InodeOk i inode) (b : Nat)
    (hcount : inode.blocksCount < 8) : (grown inode b).blocks = inode.blocks ++ [b] := by
  simp only [Inode.blocks, grown]
  rw [List.take_add_one, List.getElem?_set_self (by rw [h.length_eq]; exact hcount),
    List.take_set_of_le (Nat.le_refl _)]
  rfl

/-- **One inode changes.**  The others keep their records and their blocks. -/
theorem Layout.update (h : I.Layout) (i₀ : Nat)
    (hgeometry : J.sb.fsInfo = I.sb.fsInfo)
    (hinodesLength : J.sb.reservedInodesMask.length = 128)
    (hblocksLength : J.sb.reservedBlocksMask.length = 128)
    (hpacked : Packed J.sb.reservedInodesMask)
    (hres : ∀ i, Taken J.sb.reservedInodesMask i → i ≠ i₀ → Taken I.sb.reservedInodesMask i)
    (hroot : Taken I.sb.reservedInodesMask 0)
    (hmask : ∀ b, Taken I.sb.reservedBlocksMask b → Taken J.sb.reservedBlocksMask b)
    (hinodes : ∀ i, i ≠ i₀ → Taken I.sb.reservedInodesMask i → J.inodes i = I.inodes i)
    (hslots : ∀ i inode b, i ≠ i₀ → Taken I.sb.reservedInodesMask i → I.InodeOk i inode →
      b ∈ inode.blocks → J.slots b = I.slots b)
    (hfocus : ∃ inode, J.inodes i₀ = some inode ∧ J.InodeOk i₀ inode)
    (hrootBlock : i₀ = 0 → ∃ s, J.block 0 0 = some (0, s) ∧ s.info.dataSize = 0) :
    J.Layout where
  geometry := hgeometry.trans h.geometry
  inodesLength := hinodesLength
  blocksLength := hblocksLength
  packed := hpacked
  inode {i} hi := by
    by_cases heq : i = i₀
    · rw [heq]
      exact hfocus
    · have hi := hres i hi heq
      obtain ⟨inode, hget, hok⟩ := h.inode hi
      exact ⟨inode, (hinodes i heq hi).trans hget,
        hok.mono hmask fun b hb => hslots i inode b heq hi hok hb⟩
  rootBlock := by
    by_cases heq : i₀ = 0
    · exact hrootBlock heq
    · obtain ⟨s, hblock, hsize⟩ := h.rootBlock
      obtain ⟨inode, hget, hb, hs⟩ := block_cases hblock
      have hok := h.inodeOk hroot hget
      have hmem : 0 ∈ inode.blocks := mem_blocks.mpr ⟨0, hok.count_pos, hb⟩
      refine ⟨s, block_eq ((hinodes 0 (Ne.symm heq) hroot).trans hget) hb ?_, hsize⟩
      exact (hslots 0 inode 0 (Ne.symm heq) hroot hok hmem).trans hs

/-- Nothing that an inode of the image refers to changes. -/
theorem Layout.mono (h : I.Layout) (hroot : Taken I.sb.reservedInodesMask 0)
    (hgeometry : J.sb.fsInfo = I.sb.fsInfo)
    (hinodesMask : J.sb.reservedInodesMask = I.sb.reservedInodesMask)
    (hblocksLength : J.sb.reservedBlocksMask.length = 128)
    (hmask : ∀ b, Taken I.sb.reservedBlocksMask b → Taken J.sb.reservedBlocksMask b)
    (hinodes : ∀ i, Taken I.sb.reservedInodesMask i → J.inodes i = I.inodes i)
    (hslots : ∀ b, Taken I.sb.reservedBlocksMask b → J.slots b = I.slots b) : J.Layout := by
  have htaken : ∀ {i inode b}, I.InodeOk i inode → b ∈ inode.blocks →
      Taken I.sb.reservedBlocksMask b := by
    intro i inode b hok hb
    obtain ⟨k, hk, hb⟩ := mem_blocks.mp hb
    exact (hok.block hk hb).1
  refine h.update 0 hgeometry (by rw [hinodesMask]; exact h.inodesLength) hblocksLength
    (by rw [hinodesMask]; exact h.packed) (fun i hi _ => by rwa [hinodesMask] at hi) hroot hmask
    (fun i _ hi => hinodes i hi) (fun i inode b _ _ hok hb => hslots b (htaken hok hb)) ?_ ?_
  · obtain ⟨inode, hget, hok⟩ := h.inode hroot
    exact ⟨inode, (hinodes 0 hroot).trans hget,
      hok.mono hmask fun b hb => hslots b (htaken hok hb)⟩
  · intro _
    obtain ⟨s, hblock, hsize⟩ := h.rootBlock
    obtain ⟨inode, hget, hb, hs⟩ := block_cases hblock
    have hok := h.inodeOk hroot hget
    refine ⟨s, block_eq ((hinodes 0 hroot).trans hget) hb ?_, hsize⟩
    exact (hslots 0 (htaken hok (mem_blocks.mpr ⟨0, hok.count_pos, hb⟩))).trans hs

/-- **A block is rewritten by its owner**, as a block of the same kind. -/
theorem Layout.setSlot (h : I.Layout) (hroot : Taken I.sb.reservedInodesMask 0)
    {i k b : Nat} {inode : Inode} {s' : Slot}
    (hi : Taken I.sb.reservedInodesMask i) (hget : I.inodes i = some inode)
    (hk : k < inode.blocksCount) (hb : inode.blockIds[k]? = some b)
    (hs' : s'.Holds i k b inode.isFile) (hsize : i = 0 → k = 0 → s'.info.dataSize = 0) :
    (I.setSlot b s').Layout := by
  have hok := h.inodeOk hi hget
  refine h.update i rfl h.inodesLength h.blocksLength h.packed (fun j hj _ => hj) hroot
    (fun _ hb => hb) (fun _ _ _ => rfl) ?_ ⟨inode, hget, ?_⟩ ?_
  · intro j inode' x hj _ hok' hx
    apply setSlot_slots_ne
    rintro rfl
    obtain ⟨k', hk', hb'⟩ := mem_blocks.mp hx
    obtain ⟨_, s, hs, hh⟩ := hok.block hk hb
    exact hj (hok'.owner hk' hb' hs hh.inodeId_eq)
  · exact
      { id_eq := hok.id_eq, count_pos := hok.count_pos, count_le := hok.count_le,
        length_eq := hok.length_eq, unused := hok.unused, nodup := hok.nodup,
        block := fun {k' b'} hk' hb' => by
          by_cases hbb : b' = b
          · subst hbb
            have hkk := hok.index_unique hk hk' hb hb'
            subst hkk
            exact ⟨(hok.block hk hb).1, s', setSlot_slots_self I b' s', hs'⟩
          · obtain ⟨ht, s, hs, hh⟩ := hok.block hk' hb'
            exact ⟨ht, s, (setSlot_slots_ne I s' hbb).trans hs, hh⟩ }
  · rintro rfl
    obtain ⟨s, hblock, hzero⟩ := h.rootBlock
    obtain ⟨hb0, hs⟩ := block_entry hblock hget
    by_cases hb' : 0 = b
    · have hk0 : k = 0 :=
        (hok.index_unique hok.count_pos hk (hb'.symm ▸ hb0) hb).symm
      subst hb'
      exact ⟨s', block_eq hget hb0 (setSlot_slots_self I 0 s'), hsize rfl hk0⟩
    · exact ⟨s, block_eq hget hb0 ((setSlot_slots_ne I s' hb').trans hs), hzero⟩

/-- **A block list grows** by a block that was free. -/
theorem Layout.grow (h : I.Layout) (hroot : Taken I.sb.reservedInodesMask 0)
    {i b : Nat} {inode : Inode} {s : Slot} (hi : Taken I.sb.reservedInodesMask i)
    (hget : I.inodes i = some inode) (hcount : inode.blocksCount ≠ 8)
    (hb : firstFree I.sb.reservedBlocksMask = some b) (hs : s.IsData)
    (hblock : s.info.blockId = b) (hinode : s.info.inodeId = i) :
    (((I.takeBlock b).setInode (grown inode b)).setSlot b s).Layout := by
  have hok := h.inodeOk hi hget
  obtain ⟨hlt, hfree, _⟩ := firstFree_eq_some_iff.mp hb
  have hpos := hok.count_pos
  have hle := hok.count_le
  have hmask : ∀ x, Taken I.sb.reservedBlocksMask x →
      Taken ((I.takeBlock b).sb.reservedBlocksMask) x :=
    fun x hx => (taken_set hlt).mpr (Or.inr hx)
  have hnotin : ∀ {j inode'}, I.InodeOk j inode' → b ∉ inode'.blocks := by
    intro j inode' hok' hmem
    obtain ⟨k, hk, hbk⟩ := mem_blocks.mp hmem
    exact hfree (hok'.block hk hbk).1
  have hid : (grown inode b).id = i := hok.id_eq
  -- entry `blocks_count` of the new list is `b`, the others are the old ones
  have hentry : ∀ {k}, k < inode.blocksCount → (grown inode b).blockIds[k]? = inode.blockIds[k]? :=
    fun hk => List.getElem?_set_ne (by omega)
  have hlast : (grown inode b).blockIds[inode.blocksCount]? = some b := by
    simp only [grown]
    rw [List.getElem?_set_self (by rw [hok.length_eq]; omega)]
  have hslot : ∀ x, x ≠ b → (((I.takeBlock b).setInode (grown inode b)).setSlot b s).slots x
      = I.slots x := fun x hx => setSlot_slots_ne _ s hx
  refine h.update i rfl h.inodesLength (by simpa [takeBlock] using h.blocksLength) h.packed
    (fun j hj _ => hj) hroot hmask (fun j hj _ => setInode_inodes_ne _ _ (by rwa [hid])) ?_
    ⟨grown inode b, hid ▸ setInode_inodes_self _ _, ?_⟩ ?_
  · intro j inode' x _ _ hok' hx
    exact hslot x fun heq => hnotin hok' (heq ▸ hx)
  · refine
      { id_eq := hid, count_pos := Nat.succ_pos _, count_le := ?_, length_eq := ?_,
        unused := ?_, nodup := ?_, block := ?_ }
    · simp only [grown]; omega
    · simp only [grown, List.length_set]; exact hok.length_eq
    · intro k hk hk8
      simp only [grown] at hk ⊢
      rw [List.getElem?_set_ne (by omega)]
      exact hok.unused (by omega) hk8
    · rw [hok.grown_blocks b (by omega), List.nodup_append]
      refine ⟨hok.nodup, by simp, ?_⟩
      intro x hx y hy hxy
      rw [List.mem_singleton] at hy
      exact hnotin hok (hy ▸ hxy ▸ hx)
    · intro k x hk hx
      rcases Nat.lt_or_eq_of_le (Nat.le_of_lt_succ hk) with hk | rfl
      · rw [hentry hk] at hx
        obtain ⟨ht, s', hs', hh⟩ := hok.block hk hx
        have hne : x ≠ b := fun heq => hfree (heq ▸ ht)
        exact ⟨hmask x ht, s', (hslot x hne).trans hs', hh⟩
      · rw [hlast] at hx
        cases hx
        refine ⟨(taken_set hlt).mpr (Or.inl rfl), s, setSlot_slots_self _ _ _, hblock, hinode, ?_⟩
        rw [if_neg (by omega)]
        exact hs
  · rintro rfl
    obtain ⟨s₀, hblock₀, hzero⟩ := h.rootBlock
    obtain ⟨hb0, hs₀⟩ := block_entry hblock₀ hget
    have hne : 0 ≠ b := fun heq => hfree (heq ▸ (hok.block hpos hb0).1)
    exact ⟨s₀, block_eq (hid ▸ setInode_inodes_self _ _) ((hentry hpos).trans hb0)
      ((hslot 0 hne).trans hs₀), hzero⟩

/-- The block of a new inode holds what its kind asks for. -/
theorem freshSlot_holds (isFile : Bool) (parent n b : Nat) :
    (I.freshSlot isFile parent n b).Holds n 0 b isFile := by
  cases isFile
  · refine ⟨rfl, rfl, ?_⟩
    rw [if_pos ⟨rfl, rfl⟩]
    exact ⟨parent, [], rfl, rfl, Nat.zero_le 4⟩
  · refine ⟨rfl, rfl, ?_⟩
    rw [if_neg (by simp)]
    exact ⟨rfl, Nat.zero_le 121, fun hne => absurd rfl hne⟩

/-- The record of a new inode fits its block. -/
theorem InodeOk.fresh {isFile : Bool} {n b : Nat} {s : Slot}
    (hb : Taken J.sb.reservedBlocksMask b) (hs : J.slots b = some s)
    (hh : s.Holds n 0 b isFile) : J.InodeOk n (freshInode isFile n b) where
  id_eq := rfl
  count_pos := Nat.one_pos
  count_le := by simp [freshInode]
  length_eq := by simp [freshInode]
  unused {k} hk hk8 := by
    obtain ⟨k, rfl⟩ : ∃ j, k = j + 1 := ⟨k - 1, by simp only [freshInode] at hk; omega⟩
    simp only [freshInode, List.getElem?_cons_succ, List.getElem?_replicate]
    rw [if_pos (by omega)]
  nodup := by simp [Inode.blocks, freshInode]
  block {k x} hk hx := by
    obtain rfl : k = 0 := by simp only [freshInode] at hk; omega
    have hb0 : (freshInode isFile n b).blockIds[0]? = some b := rfl
    rw [hb0] at hx
    cases hx
    exact ⟨hb, s, hs, hh⟩

/-- **A new inode** with one block. -/
theorem Layout.alloc (h : I.Layout) (hroot : Taken I.sb.reservedInodesMask 0)
    {isFile : Bool} {parent n b : Nat} (hn : firstFree I.sb.reservedInodesMask = some n)
    (hb : firstFree I.sb.reservedBlocksMask = some b) :
    (I.alloc isFile parent n b).Layout := by
  obtain ⟨hnlt, hnfree, _⟩ := firstFree_eq_some_iff.mp hn
  obtain ⟨hblt, hbfree, _⟩ := firstFree_eq_some_iff.mp hb
  have hne : ∀ {i}, Taken I.sb.reservedInodesMask i → i ≠ n := fun hi heq => hnfree (heq ▸ hi)
  have hslot : ∀ x, x ≠ b → (I.alloc isFile parent n b).slots x = I.slots x :=
    fun x hx => setSlot_slots_ne I _ hx
  refine h.update n rfl (by simpa [Image.alloc, takeInode, takeBlock] using h.inodesLength)
    (by simpa [Image.alloc, takeInode, takeBlock] using h.blocksLength)
    (h.packed.set_firstFree hn) (fun i hi hin => ((taken_set hnlt).mp hi).resolve_left hin) hroot
    (fun x hx => (taken_set hblt).mpr (Or.inr hx))
    (fun i hin _ => setInode_inodes_ne _ _ hin) ?_
    ⟨freshInode isFile n b, setInode_inodes_self _ (freshInode isFile n b),
      InodeOk.fresh ((taken_set hblt).mpr (Or.inl rfl)) (setSlot_slots_self I b _)
        (freshSlot_holds isFile parent n b)⟩
    (fun heq => absurd heq.symm (hne hroot))
  intro i inode x _ _ hok hx
  obtain ⟨k, hk, hbk⟩ := mem_blocks.mp hx
  exact hslot x fun heq => hbfree (heq ▸ (hok.block hk hbk).1)

end Image

end MiniExt
