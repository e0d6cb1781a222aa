import MiniExt.Properties.Overwrite
import MiniExt.Properties.Tree
import MiniExt.Runs.Frames

namespace MiniExt

open Lib

/-!
# What is reserved

Two operations reserve before they check.  A creation stores its inode before it looks for
room in the directory, and a write reserves a block before it looks for an entry in the
inode.  Runs in which neither check fails reserve exactly what is in use.

* `Store.ExactlyAllocated` — the property;
* `Leaks` — the commands that break it, in the state they start from;
* `allocation_is_exact` — the runs without them;
* `leakedWorld_not_exact` — a run with one.
-/

/-- The masks mark the blocks that reserved inodes list, and the inodes that records name. -/
structure Store.ExactlyAllocated (st : Store) : Prop where
  blocks : ∀ b, st.BlockReserved b ↔ ∃ i, st.InodeReserved i ∧ b ∈ st.blocksOf i
  inodes : ∀ i, i ≠ rootInodeId → (st.InodeReserved i ↔ ∃ d k, st.IsDir d ∧ st.Names d k i)

/-- A creation that finds an inode and a block, but no room for its record: the directory
    has six, or the name does not fit into one. -/
def Store.CreateLeaks (st : Store) (path : List UInt8) : Prop :=
  match st.site path with
  | .done (some (_, s, name)) =>
    ¬ s.Mixed ∧ s.find name = none ∧ 0 < st.freeInodes ∧ 0 < st.freeBlocks ∧
      (s.info.recordsCount = 6 ∨ 16 ≤ name.length)
  | _ => False

/-- A write of `n` bytes that needs more blocks than the inode has entries left for, and
    finds a free block once they are used up. -/
def Store.WriteLeaks (st : Store) (fd n : Nat) : Prop :=
  ∃ i pos inode, st.Descriptor fd i pos ∧ st.inodes i = some inode ∧
    (inode.isFile = true ∨ 121 ≤ pos) ∧
    8 - inode.blocksCount < inode.blocksNeeded pos (min n 968) ∧
    8 - inode.blocksCount < st.freeBlocks

/-- The commands that leave something reserved that nothing uses. -/
def Leaks (w : World) : Command → Prop
  | .mkdir path => w.store.CreateLeaks path.bytes
  | .touch path => w.store.CreateLeaks path.bytes
  | .write fd data => w.store.WriteLeaks fd data.length
  | .writeFrom fd path =>
    ∃ data, Image.hostData w.files path.bytes = some data ∧ w.store.WriteLeaks fd data.length
  | _ => False

instance (st : Store) (path : List UInt8) : Decidable (st.CreateLeaks path) := by
  unfold Store.CreateLeaks
  split <;> infer_instance

namespace Image

/-- Everything that is reserved is in use. -/
structure Exact (I : Image) : Prop where
  blocks : ∀ {b}, Taken I.sb.reservedBlocksMask b →
    ∃ i inode, Taken I.sb.reservedInodesMask i ∧ I.inodes i = some inode ∧ b ∈ inode.blocks
  inodes : ∀ {i}, Taken I.sb.reservedInodesMask i → i ≠ rootInodeId → I.store.tree.Named i

variable {I J : Image}

/-- What is in use is reserved anyway. -/
theorem Ok.exactlyAllocated (h : I.Ok) (he : I.Exact) : I.store.ExactlyAllocated where
  blocks b := by
    constructor
    · intro hb
      obtain ⟨i, inode, hi, hget, hmem⟩ := he.blocks hb
      refine ⟨i, hi, ?_⟩
      simpa only [Store.blocksOf, store_inodes, hget] using hmem
    · rintro ⟨i, hi, hmem⟩
      obtain ⟨inode, hget, hok⟩ := h.layout.inode hi
      simp only [Store.blocksOf, store_inodes, hget] at hmem
      obtain ⟨k, hk, hb⟩ := mem_blocks.mp hmem
      exact (hok.block hk hb).1
  inodes i hroot := by
    rw [← h.named_iff]
    exact ⟨fun hi => he.inodes hi hroot, fun hi => h.directories.tree.live_of_named hi⟩

/-! ### Single changes -/

/-- A new image reserves exactly what it uses. -/
theorem exact_formatted : formatted.Exact where
  blocks {b} hb := by
    rw [taken_formatted.2.mp hb]
    exact ⟨0, freshInode false 0 0, taken_formatted.1.mpr rfl, rfl,
      mem_blocks.mpr ⟨0, Nat.one_pos, rfl⟩⟩
  inodes hi hroot := absurd (taken_formatted.1.mp hi) hroot

/-- A change of blocks and of the descriptor table that no directory notices. -/
theorem Exact.congr (he : I.Exact) (hsb : J.sb = I.sb) (hinodes : J.inodes = I.inodes)
    (hsame : SameTree I J) : J.Exact where
  blocks hb := by
    rw [hsb, hinodes]
    rw [hsb] at hb
    exact he.blocks hb
  inodes hi hroot := by
    rw [hsb] at hi
    exact hsame.named (he.inodes hi hroot)

/-- A table is stored. -/
theorem Exact.setTable (he : I.Exact) (dt : DescriptorsTable) : (I.setTable dt).Exact :=
  ⟨he.blocks, he.inodes⟩

/-- A block is reserved and listed. -/
theorem Exact.append (he : I.Exact) (h : I.Ok) {i b : Nat} {inode : Inode}
    (hi : Taken I.sb.reservedInodesMask i) (hget : I.inodes i = some inode)
    (hcount : inode.blocksCount ≠ 8) (hb : firstFree I.sb.reservedBlocksMask = some b) (s : Slot) :
    (((I.takeBlock b).setInode (grown inode b)).setSlot b s).Exact where
  blocks {x} hx := by
    have hok := h.layout.inodeOk hi hget
    have hblocks := hok.grown_blocks b (lt_of_le_of_ne hok.count_le hcount)
    have hgrown : ((I.takeBlock b).setInode (grown inode b)).inodes i = some (grown inode b) :=
      setInode_grown hok.id_eq _
    rcases (taken_set (firstFree_eq_some_iff.mp hb).1).mp hx with rfl | hx
    · exact ⟨i, grown inode x, hi, hgrown, by rw [hblocks]; simp⟩
    · obtain ⟨j, inode', hj, hget', hmem⟩ := he.blocks hx
      by_cases hji : j = i
      · subst hji
        rw [hget] at hget'
        cases hget'
        exact ⟨j, grown inode b, hj, hgrown, by rw [hblocks]; exact List.mem_append_left _ hmem⟩
      · exact ⟨j, inode', hj, (setInode_inodes_ne _ _ (hok.id_eq ▸ hji)).trans hget', hmem⟩
  inodes hx hroot := (h.sameTree_grow hi hget hb s).named (he.inodes hx hroot)

/-- An inode is reserved and named. -/
theorem CreateAt.exact {isFile : Bool} {path name : List UInt8} {p n b b₀ : Nat} {s : Slot}
    (hat : I.CreateAt path p name n b b₀ s) (he : I.Exact) (h : I.Ok) (hz : 0 ∉ path)
    (hroom : s.info.recordsCount ≠ 6) (hshort : name.length < 16) :
    ((I.alloc isFile p n b).link p ⟨n, nameField defaultFsInfo name⟩).Exact := by
  obtain ⟨hnlt, _⟩ := firstFree_eq_some_iff.mp hat.inodeFree
  obtain ⟨hblt, _⟩ := firstFree_eq_some_iff.mp hat.blockFree
  obtain ⟨_, hnew, hkeep, _⟩ := hat.link_ok h isFile hz hroom hshort
  have hlink : ((I.alloc isFile p n b).link p ⟨n, nameField defaultFsInfo name⟩).sb =
      (I.alloc isFile p n b).sb ∧
      ((I.alloc isFile p n b).link p ⟨n, nameField defaultFsInfo name⟩).inodes =
        (I.alloc isFile p n b).inodes := by
    unfold link
    split <;> exact ⟨rfl, rfl⟩
  refine ⟨fun {x} hx => ?_, fun {i} hi hroot => ?_⟩
  · rw [hlink.1] at hx ⊢
    rw [hlink.2]
    rcases (taken_set hblt).mp hx with rfl | hx
    · exact ⟨n, freshInode isFile n x, (taken_set hnlt).mpr (Or.inl rfl),
        setInode_inodes_self _ (freshInode isFile n x), mem_blocks.mpr ⟨0, Nat.one_pos, rfl⟩⟩
    · obtain ⟨j, inode, hj, hget, hmem⟩ := he.blocks hx
      exact ⟨j, inode, (taken_set hnlt).mpr (Or.inr hj),
        ((Ok.alloc_frame isFile p hat.inodeFree hat.blockFree).1 j hj).trans hget, hmem⟩
  · rw [hlink.1] at hi
    rcases (taken_set hnlt).mp hi with rfl | hi
    · exact hnew
    · exact hkeep i (h.alloc_named hat.inodeFree hat.blockFree (he.inodes hi hroot))

/-! ### Writes -/

/-- Blocks needed before and after a turn in a block of the list. -/
theorem blocksNeeded_patch {inode : Inode} {pos : Nat} {data : List UInt8}
    (hd : data ≠ []) (hk : pos / 121 < inode.blocksCount) :
    inode.blocksNeeded (pos + (data.take (121 - pos % 121)).length)
        (data.drop (121 - pos % 121)).length = inode.blocksNeeded pos data.length := by
  have := List.length_pos_iff.mpr hd
  simp only [Inode.blocksNeeded, List.length_take, List.length_drop]
  split <;> split <;> omega

/-- Blocks needed before and after a turn that appends one. -/
theorem blocksNeeded_append {inode : Inode} {pos b : Nat} {data : List UInt8}
    (hd : data ≠ []) (hk : inode.blocksCount ≤ pos / 121) :
    (grown inode b).blocksNeeded (pos + (data.take (121 - pos % 121)).length)
        (data.drop (121 - pos % 121)).length + 1 = inode.blocksNeeded pos data.length := by
  have := List.length_pos_iff.mpr hd
  simp only [Inode.blocksNeeded, grown, List.length_take, List.length_drop]
  split <;> split <;> omega

/-- **A write that does not leak** reserves the blocks it lists. -/
theorem WriteRun.exact {i pos : Nat} {data : List UInt8} {r : WriteEnd}
    (hrun : WriteRun i I pos data r) (h : I.Ok) (hi : Taken I.sb.reservedInodesMask i)
    {inode : Inode} (hget : I.inodes i = some inode) (he : I.Exact)
    (hfits : inode.isFile = true ∨ 121 ≤ pos →
      8 - inode.blocksCount < inode.blocksNeeded pos data.length →
      free I.sb.reservedBlocksMask ≤ 8 - inode.blocksCount) : r.image.Exact := by
  induction hrun generalizing inode with
  | done => exact he
  | @patch I pos b data inode₁ s r hd hget₁ hk hblock hs next ih =>
    obtain rfl : inode₁ = inode := Option.some.inj (hget₁.symm.trans hget)
    have hok := h.layout.inodeOk hi hget
    obtain ⟨_, hdir, _⟩ := hok.data_block hget hk hblock hs
    have hfit := piece_fits pos data
    refine ih (h.patch hi hget hk hblock hs hfit) hi hget
      (he.congr rfl rfl (h.sameTree_patch hi hget hk hblock hs hfit)) fun _ hmore => ?_
    rw [blocksNeeded_patch hd hk] at hmore
    refine hfits ?_ hmore
    -- the first block of a directory takes no data
    by_contra hnot
    rw [not_or] at hnot
    exact hdir ⟨by omega, by simpa using hnot.1⟩
  | spoil hd hget₁ hk hblock hs hz =>
    obtain ⟨_, _, _, hslot⟩ := block_cases hblock
    exact he.congr rfl rfl (h.sameTree_setSlot hslot rfl)
  | reject => exact he
  | noBlock => exact he
  | @noEntry I pos b data inode₁ hd hget₁ hk hb hcount =>
    obtain rfl : inode₁ = inode := Option.some.inj (hget₁.symm.trans hget)
    have hpos := List.length_pos_iff.mpr hd
    have hfree := free_pos_of_firstFree hb
    have := hfits (Or.inr (by omega)) (by
      simp only [Inode.blocksNeeded]
      split <;> omega)
    omega
  | @append I pos b data inode₁ r hd hget₁ hk hb hcount next ih =>
    obtain rfl : inode₁ = inode := Option.some.inj (hget₁.symm.trans hget)
    have hok := h.layout.inodeOk hi hget
    have hgrown : ((I.takeBlock b).setInode (grown inode₁ b)).inodes i = some (grown inode₁ b) :=
      setInode_grown hok.id_eq _
    refine ih (h.append hi hget hcount hb (piece_fits _ _)) hi hgrown
      (he.append h hi hget hcount hb _) fun _ hmore => ?_
    have hneeded := blocksNeeded_append (b := b) hd hk
    have hfree : free (I.takeBlock b).sb.reservedBlocksMask = free I.sb.reservedBlocksMask - 1 :=
      free_set hb
    have hcountG : (grown inode₁ b).blocksCount = inode₁.blocksCount + 1 := rfl
    rw [hcountG] at hmore ⊢
    have hpos := hok.count_pos
    have hle := hfits (Or.inr (by omega)) (by omega)
    rw [setSlot_sb, setInode_sb, hfree]
    omega

/-! ### Commands -/

/-- A write in an exact image. -/
theorem Exact.written (he : I.Exact) (h : I.Ok) (fd : Nat) (data : List UInt8)
    (hok : ¬ I.store.WriteLeaks fd data.length) : (I.written fd data).Exact := by
  rcases h.write_cases fd data with ⟨_, _, heq⟩ | ⟨_, _, heq⟩ |
    ⟨i, pos, r, hres, hi, hpos, hrun, _, heq⟩
  · rwa [heq]
  · rwa [heq]
  obtain ⟨htaken, _⟩ := h.descriptor hres hi
  obtain ⟨inode, hget, _⟩ := h.layout.inode htaken
  have hend : r.image.Exact := by
    refine hrun.exact h htaken hget he fun hkind hmore => ?_
    rw [List.length_take, Nat.min_comm] at hmore
    by_contra hfree
    exact hok ⟨i, pos, inode, ⟨hres, hi, hpos⟩, hget, hkind, hmore, Nat.not_le.mp hfree⟩
  rw [heq, WriteEnd.settled]
  split
  · exact hend
  · exact hend.setTable _

/-- A creation in an exact image. -/
theorem Exact.created (he : I.Exact) (h : I.Ok) (isFile : Bool) {path : List UInt8} (hz : 0 ∉ path)
    (hok : ¬ I.store.CreateLeaks path) : (I.create isFile path).image.Exact := by
  have hrun := h.createRun isFile path
  generalize I.create isFile path = e at hrun
  cases hrun with
  | unchanged o => exact he
  | @leaked p n b b₀ name s o hat hfull =>
    refine absurd ?_ hok
    simp only [Store.CreateLeaks, hat.site]
    exact ⟨hat.clean, hat.absent, free_pos_of_firstFree hat.inodeFree,
      free_pos_of_firstFree hat.blockFree, hfull⟩
  | linked hat hroom hshort => exact hat.exact he h hz hroom hshort

/-- **Every command that does not leak** keeps an image exact. -/
theorem Exact.after (he : I.Exact) (h : I.Ok) (F : HostFiles) (c : Command)
    (hok : ¬ Leaks ⟨I.store, F⟩ c) : (I.after F c).Exact := by
  by_cases htable : c.TableOnly
  · rw [h.after_tableOnly F htable]
    exact he.setTable _
  cases c with
  | init => exact exact_formatted
  | mkdir path => exact he.created h false path.nulFree hok
  | touch path => exact he.created h true path.nulFree hok
  | write fd data => exact he.written h fd data hok
  | writeFrom fd path =>
    simp only [Image.after]
    split
    · rename_i data hdata
      exact he.written h fd data fun hleak => hok ⟨data, hdata, hleak⟩
    · exact he
  | _ => exact absurd trivial htable

end Image

/-- **Allocation is exact** in every run without a command that leaks or writes a host file onto
    the image. -/
theorem allocation_is_exact {w : World}
    (hw : ReachableBy (fun w c => ¬ Leaks w c ∧ ¬ c.OntoImage w.files) w) :
    w.store.ExactlyAllocated := by
  obtain ⟨I, hI, he, hstore⟩ := hw.image Image.Exact Image.exact_formatted
    fun I F c h he hok => he.after h F c hok.1
  rw [hstore]
  exact hI.exactlyAllocated he

/-- A file is created. -/
theorem exactlyAllocated_file :
    (((World.mk .blank .onlyImage).step .init).step (.touch pathF)).store.ExactlyAllocated :=
  allocation_is_exact (.step _ (.init _)
    ⟨show ¬ ((World.mk .blank .onlyImage).step .init).store.CreateLeaks pathF.bytes by
      decide +kernel, id⟩)

/-- A reserved block that no inode lists. -/
theorem Store.not_exactlyAllocated {st : Store} {b : Nat} (hb : st.BlockReserved b)
    (hlt : ∀ i, st.InodeReserved i → i < 128) (hnone : ∀ i < 128, b ∉ st.blocksOf i) :
    ¬ st.ExactlyAllocated := by
  intro h
  obtain ⟨i, hi, hmem⟩ := (h.blocks b).mp hb
  exact hnone i (hlt i hi) hmem

/-- The image after a write of one byte to a file that has no entry left for its block. -/
def leakedWorld : World := fullWorld.step (.write 0 [2])

/-- The image with the leak is reached. -/
theorem reachable_leakedWorld : Reachable leakedWorld := by
  unfold leakedWorld
  exact reachable_fullWorld.step id

/-- Block 9 stays reserved, and no inode lists it. -/
theorem leakedWorld_not_exact : Reachable leakedWorld ∧ ¬ leakedWorld.store.ExactlyAllocated :=
  ⟨reachable_leakedWorld, Store.not_exactlyAllocated (b := 9) (by decide +kernel)
    (fun _ => reachable_leakedWorld.inode_lt) (by decide +kernel)⟩

end MiniExt
