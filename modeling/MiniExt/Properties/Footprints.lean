import MiniExt.Properties.Descriptors
import MiniExt.Properties.OwnImage

namespace MiniExt

open Lib

/-!
# Footprints

A command rewrites whole regions of the image, and finds blocks by the numbers that inodes
list.  Nevertheless it changes only what belongs to what it acts on, however it ends.

* `Footprint`, `Footprint.Covers` — parts of an image, and a change within them;
* `Store.FootprintOf` — the parts each command may change;
* `stays_in_footprint` — every command, from every image that runs reach.
-/

/-- Parts of an image: entries of the descriptor table, or only their positions, records of
    inodes, blocks, and bits of the two masks that may become reserved. -/
structure Footprint where
  entries : Nat → Prop
  positions : Nat → Prop
  inodes : Nat → Prop
  inodeBits : Nat → Prop
  blocks : Nat → Prop
  blockBits : Nat → Prop

/-- No part. -/
def Footprint.nothing : Footprint :=
  ⟨fun _ => False, fun _ => False, fun _ => False, fun _ => False, fun _ => False, fun _ => False⟩

/-- One entry of the descriptor table. -/
def Footprint.entry (fd : Nat) : Footprint := { Footprint.nothing with entries := (· = fd) }

/-- The position of one descriptor. -/
def Footprint.position (fd : Nat) : Footprint := { Footprint.nothing with positions := (· = fd) }

/-- Two images differ in the footprint at most. -/
structure Footprint.Covers (fp : Footprint) (st st' : Store) : Prop where
  masks : ∃ sb sb', st.superblock = some sb ∧ st'.superblock = some sb' ∧
    sb'.fsInfo = sb.fsInfo ∧ TakesOnly fp.inodeBits sb.reservedInodesMask sb'.reservedInodesMask ∧
    TakesOnly fp.blockBits sb.reservedBlocksMask sb'.reservedBlocksMask
  table : ∃ dt dt', st.descriptorsTable = some dt ∧ st'.descriptorsTable = some dt' ∧
    ∀ fd : Nat, ¬ fp.entries fd → dt'.reservedFd[fd]? = dt.reservedFd[fd]? ∧
      dt'.fdToInode[fd]? = dt.fdToInode[fd]? ∧
      (¬ fp.positions fd → dt'.fdToPosition[fd]? = dt.fdToPosition[fd]?)
  inodes : ∀ i, ¬ fp.inodes i → st'.inodes i = st.inodes i
  blocks : ∀ b, ¬ fp.blocks b → st'.slots b = st.slots b

/-- What a write to descriptor `fd` may change: its position, the record of its inode, the
    blocks that inode owns and the free ones, which may become reserved. -/
def Store.writeFootprint (st : Store) (fd : Nat) : Footprint :=
  { Footprint.position fd with
    inodes := fun i => ∃ p, st.Descriptor fd i p
    blocks := fun b => (∃ i p, st.Descriptor fd i p ∧ b ∈ st.blocksOf i) ∨ ¬ st.BlockReserved b
    blockBits := fun _ => True }

/-- What a creation in directory `p` may change: the first block of `p`, inode `n`, block `b`
    and their bits. -/
def Store.createFootprint (st : Store) (p n b : Nat) : Footprint :=
  { Footprint.nothing with
    inodes := (· = n)
    inodeBits := (· = n)
    blocks := fun x => x = b ∨ (st.blocksOf p).head? = some x
    blockBits := (· = b) }

/-- The footprints of the commands. -/
def Store.FootprintOf (st : Store) : Command → Footprint → Prop
  | .init, _ => False
  | .readFs, fp | .ls _, fp => fp = .nothing
  | .open _, fp => ∃ fd, fp = .entry fd
  | .close fd, fp => fp = .entry fd
  | .read fd _, fp | .readTo fd _ _, fp | .lseek fd _, fp => fp = .position fd
  | .write fd _, fp | .writeFrom fd _, fp => fp = st.writeFootprint fd
  | .mkdir path, fp | .touch path, fp =>
    fp = .nothing ∨ ∃ p s name n b, st.site path.bytes = .done (some (p, s, name)) ∧
      ¬ st.InodeReserved n ∧ ¬ st.BlockReserved b ∧ fp = st.createFootprint p n b

/-! ### Covered changes -/

/-- An image that stays as it is changes nothing outside of a footprint. -/
theorem Footprint.Covers.refl (fp : Footprint) (I : Image) : fp.Covers I.store I.store where
  masks := ⟨I.sb, I.sb, rfl, rfl, rfl, TakesOnly.refl _ _, TakesOnly.refl _ _⟩
  table := ⟨I.dt, I.dt, rfl, rfl, fun _ _ => ⟨rfl, rfl, fun _ => rfl⟩⟩
  inodes _ _ := rfl
  blocks _ _ := rfl

/-- A change of the table. -/
theorem Image.covers_setTable {fp : Footprint} (I : Image) (dt : DescriptorsTable)
    (h : ∀ fd : Nat, ¬ fp.entries fd → dt.reservedFd[fd]? = I.dt.reservedFd[fd]? ∧
      dt.fdToInode[fd]? = I.dt.fdToInode[fd]? ∧
      (¬ fp.positions fd → dt.fdToPosition[fd]? = I.dt.fdToPosition[fd]?)) :
    fp.Covers I.store (I.setTable dt).store where
  masks := ⟨I.sb, I.sb, rfl, rfl, rfl, TakesOnly.refl _ _, TakesOnly.refl _ _⟩
  table := ⟨I.dt, dt, rfl, rfl, h⟩
  inodes _ _ := rfl
  blocks _ _ := rfl

namespace Image

variable {I J K : Image} {i pos : Nat} {data : List UInt8}

/-! ### Writes -/

/-- What the loop of a write on inode `i` changes: that inode, blocks that meet a condition,
    and bits of the block mask. -/
structure LoopFrame (i : Nat) (Owned : Nat → Prop) (I J : Image) : Prop where
  bits : TakesOnly (fun _ => True) I.sb.reservedBlocksMask J.sb.reservedBlocksMask
  inodes : ∀ j, j ≠ i → J.inodes j = I.inodes j
  slots : ∀ b, ¬ Owned b → J.slots b = I.slots b

/-- Before its first turn the loop has changed nothing. -/
theorem LoopFrame.refl (i : Nat) (Owned : Nat → Prop) (I : Image) : LoopFrame i Owned I I :=
  ⟨TakesOnly.refl _ _, fun _ _ => rfl, fun _ _ => rfl⟩

/-- The frames of two parts of the loop are one frame. -/
theorem LoopFrame.trans {Owned : Nat → Prop} (h : LoopFrame i Owned I J)
    (h' : LoopFrame i Owned J K) : LoopFrame i Owned I K where
  bits := h.bits.trans h'.bits
  inodes j hj := (h'.inodes j hj).trans (h.inodes j hj)
  slots b hb := (h'.slots b hb).trans (h.slots b hb)

/-- A block of the inode is rewritten. -/
theorem loopFrame_setSlot {Owned : Nat → Prop} {b : Nat} (s : Slot) (hb : Owned b) :
    LoopFrame i Owned I (I.setSlot b s) where
  bits := TakesOnly.refl _ _
  inodes _ _ := rfl
  slots x hx := by
    apply setSlot_slots_ne
    rintro rfl
    exact hx hb

/-- A free block is appended. -/
theorem loopFrame_append {Owned : Nat → Prop} {b : Nat} {inode : Inode} (s : Slot)
    (hid : inode.id = i) (hb : firstFree I.sb.reservedBlocksMask = some b) (hown : Owned b) :
    LoopFrame i Owned I (((I.takeBlock b).setInode (grown inode b)).setSlot b s) where
  bits := takesOnly_set hb trivial
  inodes j hj := by
    apply setInode_inodes_ne
    rintro rfl
    exact hj hid
  slots x hx := by
    apply setSlot_slots_ne
    rintro rfl
    exact hx hown

/-- **The loop** changes what belongs to its inode, and free blocks. -/
theorem WriteRun.loopFrame {r : WriteEnd} (hrun : WriteRun i I pos data r) (h : I.Ok)
    (hi : Taken I.sb.reservedInodesMask i) (Owned : Nat → Prop)
    (hown : ∀ b ∈ I.store.blocksOf i, Owned b)
    (hfree : ∀ b, ¬ Taken I.sb.reservedBlocksMask b → Owned b) :
    LoopFrame i Owned I r.image := by
  have hlist : ∀ {I : Image} {inode : Inode} {k b : Nat} {s : Slot},
      (∀ b ∈ I.store.blocksOf i, Owned b) → I.inodes i = some inode → k < inode.blocksCount →
      I.block i k = some (b, s) → Owned b := by
    intro I inode k b s hown hget hk hblock
    obtain ⟨hb, _⟩ := block_entry hblock hget
    apply hown
    rw [Store.blocksOf, store_inodes, hget]
    exact mem_blocks.mpr ⟨k, hk, hb⟩
  -- by induction on the run: a step writes a block of the inode, or takes a free one
  induction hrun with
  | done => exact LoopFrame.refl ..
  | @patch I pos b data inode s r hd hget hk hblock hs next ih =>
    have hJ := h.patch hi hget hk hblock hs (piece_fits pos data)
    exact (loopFrame_setSlot _ (hlist hown hget hk hblock)).trans (ih hJ hi hown hfree)
  | spoil hd hget hk hblock hs hz => exact loopFrame_setSlot _ (hlist hown hget hk hblock)
  | reject => exact LoopFrame.refl ..
  | noBlock => exact LoopFrame.refl ..
  | noEntry hd hget hk hb hcount =>
    exact ⟨takesOnly_set hb trivial, fun _ _ => rfl, fun _ _ => rfl⟩
  | @append I pos b data inode r hd hget hk hb hcount next ih =>
    have hok := h.layout.inodeOk hi hget
    obtain ⟨hlt, hbfree, _⟩ := firstFree_eq_some_iff.mp hb
    have hframe := loopFrame_append (appendedSlot i b (pos % 121) (data.take (121 - pos % 121)))
      hok.id_eq hb (hfree b hbfree)
    have hJ := h.append hi hget hcount hb (piece_fits pos data)
    refine hframe.trans (ih hJ hi (fun x hx => ?_) (fun x hx => ?_))
    · -- the list of the inode has one more entry, the free block
      have hgrown : (((I.takeBlock b).setInode (grown inode b)).setSlot b
          (appendedSlot i b (pos % 121) (data.take (121 - pos % 121)))).inodes i =
          some (grown inode b) := setInode_grown hok.id_eq _
      simp only [Store.blocksOf, store_inodes, hgrown] at hx
      rw [hok.grown_blocks b (lt_of_le_of_ne hok.count_le hcount), List.mem_append,
        List.mem_singleton] at hx
      rcases hx with hx | rfl
      · apply hown
        rwa [Store.blocksOf, store_inodes, hget]
      · exact hfree x hbfree
    · apply hfree
      intro htaken
      exact hx ((taken_set hlt).mpr (Or.inr htaken))

/-- **A write** stays in its footprint. -/
theorem Ok.covers_written (h : I.Ok) (fd : Nat) (data : List UInt8) :
    (I.store.writeFootprint fd).Covers I.store (I.written fd data).store := by
  have hok := h.written_ok fd data
  rcases h.write_cases fd data with ⟨_, _, heq⟩ | ⟨_, _, heq⟩ |
    ⟨i, pos, r, hres, hi, hpos, hrun, _, heq⟩
  · rw [heq]
    exact Footprint.Covers.refl _ I
  · rw [heq]
    exact Footprint.Covers.refl _ I
  have hent : I.store.Descriptor fd i pos := descriptor_iff.mpr ⟨hres, hi, hpos⟩
  obtain ⟨bits, inodes, slots⟩ := hrun.loopFrame h (h.descriptor hres hi).1
    (I.store.writeFootprint fd).blocks (fun b hb => Or.inl ⟨i, pos, hent, hb⟩)
    fun b hb => Or.inr hb
  -- what the command stores after the loop is the position
  have hmasks : (I.written fd data).sb = r.image.sb := by
    rw [heq, WriteEnd.settled]
    split
    · rfl
    · rfl
  have hinodes : (I.written fd data).inodes = r.image.inodes := by
    rw [heq, WriteEnd.settled]
    split
    · rfl
    · rfl
  have hslots : (I.written fd data).slots = r.image.slots := by
    rw [heq, WriteEnd.settled]
    split
    · rfl
    · rfl
  refine ⟨⟨I.sb, _, rfl, rfl, ?_, ?_, ?_⟩, ⟨I.dt, _, rfl, rfl, fun fd' _ => ?_⟩, fun j hj => ?_,
    fun b hb => ?_⟩
  · rw [hok.layout.geometry, h.layout.geometry]
  · rw [hmasks, hrun.inodesMask]
    exact TakesOnly.refl _ _
  · rw [hmasks]
    exact bits
  · rcases h.movedAt_written fd data with hdt | ⟨p, hdt⟩
    · rw [hdt]
      exact ⟨rfl, rfl, fun _ => rfl⟩
    · rw [hdt]
      exact ⟨rfl, rfl, fun hne => List.getElem?_set_ne (Ne.symm hne)⟩
  · rw [store_inodes, hinodes]
    apply inodes
    rintro rfl
    exact hj ⟨pos, hent⟩
  · rw [store_slots, hslots]
    exact slots b hb

/-! ### Creations -/

/-- A new inode. -/
theorem covers_alloc (isFile : Bool) {p n b : Nat} (hn : firstFree I.sb.reservedInodesMask = some n)
    (hb : firstFree I.sb.reservedBlocksMask = some b) :
    (I.store.createFootprint p n b).Covers I.store (I.alloc isFile p n b).store where
  masks := ⟨I.sb, _, rfl, rfl, rfl, takesOnly_set hn rfl, takesOnly_set hb rfl⟩
  table := ⟨I.dt, _, rfl, rfl, fun _ _ => ⟨rfl, rfl, fun _ => rfl⟩⟩
  inodes _ hj :=
    setInode_inodes_ne (I.setSlot b (I.freshSlot isFile p n b)) (freshInode isFile n b) hj
  blocks _ hx := setSlot_slots_ne I _ fun heq => hx (Or.inl heq)

/-- **A creation** stays in its footprint. -/
theorem Ok.covers_created (h : I.Ok) (isFile : Bool) (path : List UInt8) :
    ∃ fp : Footprint, fp.Covers I.store (I.create isFile path).image.store ∧
      (fp = .nothing ∨ ∃ p s name n b, I.store.site path = .done (some (p, s, name)) ∧
        ¬ I.store.InodeReserved n ∧ ¬ I.store.BlockReserved b ∧
          fp = I.store.createFootprint p n b) := by
  have hrun := h.createRun isFile path
  generalize I.create isFile path = e at hrun
  cases hrun with
  | unchanged o => exact ⟨.nothing, Footprint.Covers.refl _ I, Or.inl rfl⟩
  | @leaked p n b b₀ name s o hat hfull =>
    exact ⟨_, covers_alloc isFile hat.inodeFree hat.blockFree, Or.inr ⟨p, s, name, n, b, hat.site,
      (firstFree_eq_some_iff.mp hat.inodeFree).2.1, (firstFree_eq_some_iff.mp hat.blockFree).2.1,
      rfl⟩⟩
  | @linked p n b b₀ name s hat hroom hshort =>
    refine ⟨_, ?_, Or.inr ⟨p, s, name, n, b, hat.site,
      (firstFree_eq_some_iff.mp hat.inodeFree).2.1, (firstFree_eq_some_iff.mp hat.blockFree).2.1,
      rfl⟩⟩
    obtain ⟨masks, table, inodes, blocks⟩ :=
      covers_alloc (p := p) isFile hat.inodeFree hat.blockFree
    rw [hat.link_eq h]
    refine ⟨masks, table, inodes, fun x hx => (setSlot_slots_ne _ _ ?_).trans (blocks x hx)⟩
    -- the record goes into the first block of the directory
    rintro rfl
    apply hx
    right
    obtain ⟨inode, hget, hb₀, _⟩ := block_cases hat.block
    have hok := h.layout.inodeOk hat.dir.1 hget
    simp only [Store.blocksOf, store_inodes, hget, Inode.blocks, List.head?_eq_getElem?]
    rw [List.getElem?_take_of_lt hok.count_pos, hb₀]

/-! ### Commands -/

/-- **A command that stores the table alone** stays in its footprint. -/
theorem Ok.covers_table (h : I.Ok) (F : HostFiles) {c : Command} (hc : c.TableOnly) :
    ∃ fp, I.store.FootprintOf c fp ∧ fp.Covers I.store (I.after F c).store := by
  rw [h.after_tableOnly F hc]
  have hmoved : ∀ {fd : Nat} {dt : DescriptorsTable}, I.dt.MovedAt fd dt →
      (Footprint.position fd).Covers I.store (I.setTable dt).store := by
    rintro fd dt (rfl | ⟨p, rfl⟩)
    · exact Footprint.Covers.refl _ I
    · exact I.covers_setTable _ fun fd' _ =>
        ⟨rfl, rfl, fun hne => List.getElem?_set_ne (Ne.symm hne)⟩
  cases c with
  | readFs => exact ⟨_, rfl, Footprint.Covers.refl _ I⟩
  | ls path => exact ⟨_, rfl, Footprint.Covers.refl _ I⟩
  | «open» path =>
    rcases h.openPath_cases path.bytes with ⟨heq, _⟩ | ⟨i, fd, dt, heq, _, _, hdt⟩
    · rw [Image.after, heq]
      exact ⟨_, ⟨0, rfl⟩, Footprint.Covers.refl _ I⟩
    · rw [Image.after, heq]
      refine ⟨_, ⟨fd, rfl⟩, I.covers_setTable _ fun fd' hne => ?_⟩
      obtain ⟨_, _, rfl⟩ := reserveDescriptor_eq hdt
      exact ⟨List.getElem?_set_ne (Ne.symm hne), List.getElem?_set_ne (Ne.symm hne),
        fun _ => List.getElem?_set_ne (Ne.symm hne)⟩
  | close fd =>
    refine ⟨_, rfl, I.covers_setTable _ fun fd' hne => ?_⟩
    simp only [Image.after, closeFd]
    split
    · rw [setTable_dt, MiniExt.freeDescriptor]
      split
      · exact ⟨List.getElem?_set_ne (Ne.symm hne), List.getElem?_set_ne (Ne.symm hne),
          fun _ => List.getElem?_set_ne (Ne.symm hne)⟩
      · exact ⟨rfl, rfl, fun _ => rfl⟩
    · exact ⟨rfl, rfl, fun _ => rfl⟩
  | read fd size => exact ⟨_, rfl, hmoved (I.movedAt_read fd size _)⟩
  | readTo fd path size => exact ⟨_, rfl, hmoved (I.movedAt_read fd _ _)⟩
  | lseek fd pos => exact ⟨_, rfl, hmoved (I.movedAt_seek fd pos)⟩
  | _ => exact hc.elim

/-- **Every command** stays in its footprint. -/
theorem Ok.covers_after (h : I.Ok) (F : HostFiles) {c : Command} (hc : c ≠ .init) :
    ∃ fp, I.store.FootprintOf c fp ∧ fp.Covers I.store (I.after F c).store := by
  by_cases htable : c.TableOnly
  · exact h.covers_table F htable
  cases c with
  | init => exact absurd rfl hc
  | mkdir path =>
    obtain ⟨fp, hcovers, hfp⟩ := h.covers_created false path.bytes
    exact ⟨fp, hfp, hcovers⟩
  | touch path =>
    obtain ⟨fp, hcovers, hfp⟩ := h.covers_created true path.bytes
    exact ⟨fp, hfp, hcovers⟩
  | write fd data => exact ⟨_, rfl, h.covers_written fd data⟩
  | writeFrom fd path =>
    refine ⟨_, rfl, ?_⟩
    simp only [Image.after]
    split
    · exact h.covers_written fd _
    · exact Footprint.Covers.refl _ I
  | _ => exact absurd trivial htable

end Image

/-- **Footprints.**  From every image that runs reach, every command but `init`, and but for a
    `read_to` onto the image, changes only what is in its footprint.  So the inodes it does not
    act on keep their records and their data, and the descriptors it is not given keep their inode
    and their position. -/
theorem stays_in_footprint {w : World} (hw : Reachable w) {c : Command} (hc : c ≠ .init)
    (_honto : ¬ c.OntoImage w.files) :
    (∃ fp, w.store.FootprintOf c fp ∧ fp.Covers w.store (w.step c).store) ∧
      (∀ j, w.store.InodeReserved j → ¬ w.store.ActsOn c j →
        (w.step c).store.inodes j = w.store.inodes j ∧
          (w.step c).store.chunks j = w.store.chunks j ∧
            (w.step c).store.records j = w.store.records j) ∧
        ∀ fd i p, c.Foreign fd → w.store.Descriptor fd i p →
          (w.step c).store.Descriptor fd i p := by
  obtain ⟨I, hI, hstore⟩ := hw.image
  rw [hstore]
  generalize w.files = F
  rw [hI.step_after]
  refine ⟨hI.covers_after F hc, fun j hj hacts => ?_, fun fd i p hforeign hent => ?_⟩
  · have hsame := hI.sameInode_after F hc (Image.inodeReserved_iff.mp hj) hacts
    refine ⟨hsame.inode, hsame.chunks, ?_⟩
    unfold Store.records
    rw [hsame.firstSlot hI (Image.inodeReserved_iff.mp hj)]
  · exact Image.descriptor_iff.mpr (hI.entry_after F hforeign (Image.descriptor_iff.mp hent))

/-- A write that appends a block leaves the root directory alone. -/
theorem stays_in_footprint_write :
    (openedWorld.step (.write 0 (List.replicate 122 1))).store.records 0 =
      openedWorld.store.records 0 := by
  have hopen : openedWorld.store.Descriptor 0 1 0 := by decide +kernel
  have hother : ¬ openedWorld.store.ActsOn (.write 0 (List.replicate 122 1)) 0 :=
    fun ⟨_, hroot⟩ => absurd (hopen.unique hroot) (by decide)
  obtain ⟨_, hkeeps, _⟩ :=
    stays_in_footprint reachable_openedWorld (c := .write 0 (List.replicate 122 1)) (by simp) id
  exact (hkeeps 0 (by decide +kernel) hother).2.2

/-- A `read_to` onto the image leaves its footprint: the inodes that were reserved are free. -/
theorem not_covers_rewritten : Reachable headWorld ∧ ∃ f f' : ImageFile,
    Represents f.bytes headWorld.store ∧
    runCommands fileHandler ImageFile.access [.readTo 1 imagePath none] (f, headWorld.files) =
      some ([.done ()], f', headWorld.files) ∧
    Represents f'.bytes rewrittenStore ∧
    ¬ ∃ fp, headWorld.store.FootprintOf (.readTo 1 imagePath none) fp ∧
      fp.Covers headWorld.store rewrittenStore := by
  obtain ⟨f, -, hf⟩ := runCommands_headWorld
  obtain ⟨f', hrun, hf'⟩ := runCommands_rewritten hf
  rw [files_headWorld]
  refine ⟨reachable_headWorld, f, f', hf, hrun, hf', ?_⟩
  rintro ⟨fp, rfl, hcovers⟩
  obtain ⟨sb, sb', hsb, hsb', -, hinodes, -⟩ := hcovers.masks
  have htaken : headWorld.store.superblock.bind (·.reservedInodesMask[1]?) = some true := by
    decide +kernel
  have hfree : rewrittenStore.superblock.bind (·.reservedInodesMask[1]?) = some false := by
    decide +kernel
  rw [hsb, Option.bind_some] at htaken
  rw [hsb', Option.bind_some] at hfree
  rcases hinodes 1 with hsame | ⟨hbit, -⟩
  · rw [htaken, hfree] at hsame
    cases hsame
  · exact hbit

end MiniExt
