import MiniExt.Runs.Commands

namespace MiniExt

open Lib

/-!
# Blocks and their owners

In every image that runs of commands reach, a reserved inode has a record of its own and
lists blocks that are reserved, carry its number, and belong to it alone.

* `Store.WellLinked` — the property, of an image on disk;
* `blocks_have_one_owner` — every run keeps it.
-/

/-- Every reserved inode has a record, and the blocks it lists are its own. -/
structure Store.WellLinked (st : Store) (sb : Superblock) : Prop where
  superblock : st.superblock = some sb
  record : ∀ {i}, st.InodeReserved i → ∃ inode, st.inodes i = some inode ∧ inode.id = i ∧
    1 ≤ inode.blocksCount ∧ inode.blocksCount ≤ sb.fsInfo.blocksCountInInode
  block : ∀ {i inode k}, st.InodeReserved i → st.inodes i = some inode → k < inode.blocksCount →
    ∃ b s, inode.blockIds[k]? = some b ∧ b < sb.fsInfo.blocksCount ∧ st.BlockReserved b ∧
      st.slots b = some s ∧ s.info.blockId = b ∧ s.info.inodeId = i
  unique : ∀ {i i' inode inode' k k' b}, st.InodeReserved i → st.InodeReserved i' →
    st.inodes i = some inode → st.inodes i' = some inode' → k < inode.blocksCount →
    k' < inode'.blocksCount → inode.blockIds[k]? = some b → inode'.blockIds[k']? = some b →
    i = i' ∧ k = k'

namespace Image

variable {I : Image}

/-- The blocks of an image that is laid out. -/
theorem Layout.wellLinked (h : I.Layout) : I.store.WellLinked I.sb where
  superblock := rfl
  record hi := by
    obtain ⟨inode, hget, hok⟩ := h.inode hi
    refine ⟨inode, hget, hok.id_eq, hok.count_pos, ?_⟩
    rw [h.geometry]
    exact hok.count_le
  block {i inode k} hi hget hk := by
    have hok := h.inodeOk hi hget
    obtain ⟨b, s, hb, ht, hs, hh⟩ := hok.getElem hk
    have hlt : b < I.sb.fsInfo.blocksCount := by
      rw [h.geometry, defaultFsInfo_blocksCount, ← h.blocksLength]
      exact ht.lt_length
    exact ⟨b, s, hb, hlt, ht, hs, hh.blockId_eq, hh.inodeId_eq⟩
  unique {i i' inode inode' k k' b} hi hi' hget hget' hk hk' hb hb' := by
    have hok := h.inodeOk hi hget
    have hok' := h.inodeOk hi' hget'
    -- the header of the block names both inodes
    obtain ⟨_, s, hs, hh⟩ := hok.block hk hb
    obtain rfl : i' = i := hok'.owner hk' hb' hs hh.inodeId_eq
    obtain rfl : inode' = inode := Option.some.inj (hget'.symm.trans hget)
    exact ⟨rfl, hok.index_unique hk hk' hb hb'⟩

end Image

/-- **No cross-linked or dangling blocks**, whatever the commands were. -/
theorem blocks_have_one_owner {w : World} (hw : Reachable w) :
    ∃ sb, w.store.WellLinked sb := by
  obtain ⟨I, hI, hstore⟩ := hw.image
  rw [hstore]
  exact ⟨I.sb, hI.layout.wellLinked⟩

/-- Two files, one of them with data. -/
theorem blocks_have_one_owner_files :
    ∃ sb, (((World.mk .blank .onlyImage).step .init).steps
      [.touch ⟨[47, 102], by decide⟩, .touch ⟨[47, 103], by decide⟩,
        .open ⟨[47, 102], by decide⟩, .write 0 (List.replicate 300 7)]).store.WellLinked sb :=
  blocks_have_one_owner ((Reachable.init _).steps _ (by decide))

end MiniExt
