import MiniExt.Properties.Blocks
import MiniExt.Properties.Kinds

namespace MiniExt

open Lib

/-!
# Cut short between two host writes

A process that stops between two host writes leaves what was stored so far.  A creation
stores the block and the inode before the masks, and the name last, so every cut is safe.
A write that appends stores the new block list first and the mask at its very end: in
between, the list leads to a block that is free on disk.  A safe cut is an image that keeps the
invariant, so it stays safe whatever is done to it later.

* `cuts` — the images a command leaves when it stops early;
* `Store.NamedBlocksSafe` — what should hold of each of them;
* `UnsafeCut` — the cuts of a write that appends, from the first new list to the mask;
* `Store.Intact` — an image that keeps the invariant;
* `cut_safe_iff` — that the others are the safe ones;
* `World.Later`, `safe_cut_later` — and that these stay safe, whatever is done later.
-/

/-- The image before a command and after each of its host writes. -/
def cuts (c : Command) (w : World) : List Store :=
  w.store :: (c.prog.run hostHandler w.start).2.log.reverse

/-- The blocks of an inode that a directory record names are reserved, and carry their own
    number and that of the inode. -/
def Store.NamedBlocksSafe (st : Store) : Prop :=
  ∀ d r inode k, st.IsDir d → r ∈ st.records d → st.inodes r.inodeId = some inode →
    k < inode.blocksCount → ∃ b s, inode.blockIds[k]? = some b ∧ st.BlockReserved b ∧
      st.slots b = some s ∧ s.info.blockId = b ∧ s.info.inodeId = r.inodeId

/-- The calls the property is about. -/
def Command.Updates : Command → Prop
  | .mkdir _ | .touch _ | .write _ _ => True
  | _ => False

/-- A write of `n` bytes on descriptor `fd` rewrites `patches` blocks and then appends one:
    it needs more blocks than the list has, and finds a free one and a free entry. -/
def Store.AppendsAfter (st : Store) (fd n patches : Nat) : Prop :=
  ∃ i pos inode, st.Descriptor fd i pos ∧ st.inodes i = some inode ∧
    (inode.isFile = true ∨ 121 ≤ pos) ∧ 0 < inode.blocksNeeded pos (min n 968) ∧
    0 < st.freeBlocks ∧ inode.blocksCount < 8 ∧ patches = inode.blocksCount - pos / 121

/-- The cuts of a write after it stored a longer block list, and before it stored the
    mask. -/
def UnsafeCut (w : World) (c : Command) (j : Nat) : Prop :=
  match c with
  | .write fd data => ∃ patches, w.store.AppendsAfter fd data.length patches ∧ patches < j ∧
      j + 1 < (cuts c w).length
  | _ => False

/-- What comes of a world later: commands are run, none of them onto the image, and the host
    changes its files. -/
inductive World.Later (w : World) : World → Prop where
  | refl : Later w w
  | step {w' : World} (c : Command) (h : Later w w') (hc : ¬ c.OntoImage w'.files) :
    Later w (w'.step c)
  | host {w' : World} (files : HostFiles) (h : Later w w') : Later w { w' with files := files }

/-- What is on disk is an image that keeps the invariant. -/
def Store.Intact (st : Store) : Prop := ∃ I : Image, I.Ok ∧ I.store = st

namespace Image

variable {I J : Image} {i pos : Nat} {data : List UInt8} {inode : Inode} {r : WriteEnd}

/-! ### Images that are safe -/

/-- An image that keeps the invariant is safe. -/
theorem Ok.namedBlocksSafe (h : I.Ok) : I.store.NamedBlocksSafe := by
  intro d rec inode k hd hrec hget hk
  obtain ⟨inode', hget', hok⟩ := h.layout.inode (h.record_taken hd hrec)
  rw [store_inodes, hget'] at hget
  cases hget
  obtain ⟨b, s, hb, ht, hs, hh⟩ := hok.getElem hk
  exact ⟨b, s, hb, ht, hs, hh.blockId_eq, hh.inodeId_eq⟩

/-- The block list of an inode leads to a block that a superblock does not reserve. -/
def Lists (i : Nat) (B : Superblock) (J : Image) : Prop :=
  ∃ inode k b, J.inodes i = some inode ∧ k < inode.blocksCount ∧
    inode.blockIds[k]? = some b ∧ ¬ Taken B.reservedBlocksMask b

/-- The image on disk is not safe while a named inode lists such a block. -/
theorem SameTree.not_namedBlocksSafe (hsame : SameTree I J) (hi : I.store.tree.Named i)
    (hlists : Lists i I.sb J) : ¬ (J.onDisk I.sb).NamedBlocksSafe := by
  intro hsafe
  obtain ⟨d, hd, e, he, rfl⟩ := hi
  obtain ⟨rec, hrec, rfl⟩ := List.mem_map.mp he
  obtain ⟨inode, k, b, hget, hk, hb, hfree⟩ := hlists
  have hdisk : (J.onDisk I.sb).IsDir d := ⟨hd.1, ((hsame.dir d).mpr hd).2⟩
  have hmem : rec ∈ (J.onDisk I.sb).records d := by
    have hall : rec ∈ J.store.records d := by
      rw [hsame.records d hd]
      exact List.mem_of_mem_drop hrec
    exact hall
  obtain ⟨b', _, hb', ht, _⟩ := hsafe d rec inode k hdisk hmem hget hk
  rw [hb] at hb'
  cases hb'
  exact hfree ht

/-! ### The images on the way of a write -/

/-- No directory notices any of them. -/
theorem WriteRun.trace_sameTree (hrun : WriteRun i I pos data r) (h : I.Ok)
    (hi : Taken I.sb.reservedInodesMask i) : ∀ J ∈ r.trace, SameTree I J := by
  induction hrun with
  | done => simp
  | @patch I pos b data inode s r hd hget hk hblock hs next ih =>
    have hfit := piece_fits pos data
    have hsame := h.sameTree_patch hi hget hk hblock hs hfit
    intro J hJmem
    rcases List.mem_cons.mp hJmem with rfl | hJmem
    · exact hsame
    · exact hsame.trans (ih (h.patch hi hget hk hblock hs hfit) hi J hJmem)
  | spoil hd hget hk hblock hs hz =>
    obtain ⟨_, _, _, hslot⟩ := block_cases hblock
    intro J hJmem
    rw [List.mem_singleton.mp hJmem]
    exact h.sameTree_setSlot hslot rfl
  | reject => simp
  | noBlock => simp
  | noEntry => simp
  | @append I pos b data inode r hd hget hk hb hcount next ih =>
    have hJ := h.append hi hget hcount hb (piece_fits pos data)
    intro J hJmem
    rcases List.mem_cons.mp hJmem with rfl | hJmem
    · exact h.sameTree_grown hi hget
    rcases List.mem_cons.mp hJmem with rfl | hJmem
    · exact h.sameTree_grow hi hget hb _
    · exact (h.sameTree_grow hi hget hb _).trans (ih hJ hi J hJmem)

/-- A list that grows keeps its entries. -/
theorem Lists.grow {B : Superblock} {b : Nat} (hlists : Lists i B I)
    (hget : I.inodes i = some inode) (hid : inode.id = i) :
    Lists i B ((I.takeBlock b).setInode (grown inode b)) := by
  obtain ⟨inode', k, x, hget', hk, hx, hfree⟩ := hlists
  rw [hget] at hget'
  cases hget'
  have hgrown : ((I.takeBlock b).setInode (grown inode b)).inodes i = some (grown inode b) :=
    setInode_grown hid _
  exact ⟨grown inode b, k, x, hgrown, Nat.lt_succ_of_lt hk,
    (List.getElem?_set_ne (by omega)).trans hx, hfree⟩

/-- Once a list leads to such a block, it does so to the end of the loop. -/
theorem WriteRun.lists {B : Superblock} (hrun : WriteRun i I pos data r) (h : I.Ok)
    (hi : Taken I.sb.reservedInodesMask i) (hlists : Lists i B I) :
    (∀ J ∈ r.trace, Lists i B J) ∧ Lists i B r.image := by
  induction hrun with
  | done => exact ⟨by simp, hlists⟩
  | patch hd hget hk hblock hs next ih =>
    obtain ⟨htrace, hend⟩ := ih (h.patch hi hget hk hblock hs (piece_fits _ _)) hi hlists
    exact ⟨List.forall_mem_cons.mpr ⟨hlists, htrace⟩, hend⟩
  | spoil => exact ⟨List.forall_mem_singleton.mpr hlists, hlists⟩
  | reject => exact ⟨by simp, hlists⟩
  | noBlock => exact ⟨by simp, hlists⟩
  | noEntry => exact ⟨by simp, hlists⟩
  | @append I pos b data inode r hd hget hk hb hcount next ih =>
    have hok := h.layout.inodeOk hi hget
    have hgrown := hlists.grow (b := b) hget hok.id_eq
    obtain ⟨htrace, hend⟩ := ih (h.append hi hget hcount hb (piece_fits _ _)) hi hgrown
    exact ⟨List.forall_mem_cons.mpr ⟨hgrown, List.forall_mem_cons.mpr ⟨hgrown, htrace⟩⟩, hend⟩

/-- A write of `n` bytes at a position appends a block: it is not rejected, needs one more
    than the list has, and finds a free one and a free entry. -/
def Appends (I : Image) (inode : Inode) (pos n : Nat) : Prop :=
  (inode.isFile = true ∨ 121 ≤ pos) ∧ 0 < inode.blocksNeeded pos n ∧
    0 < free I.sb.reservedBlocksMask ∧ inode.blocksCount < 8

/-- **A write that appends** patches the blocks it finds, then stores a list that leads to
    a free block. -/
theorem WriteRun.trace_append (hrun : WriteRun i I pos data r) (h : I.Ok)
    (hi : Taken I.sb.reservedInodesMask i) (hget : I.inodes i = some inode)
    (happ : I.Appends inode pos data.length) :
    ∃ ps qs, r.trace = ps ++ qs ∧ ps.length = inode.blocksCount - pos / 121 ∧
      (∀ J ∈ ps, J.Ok ∧ J.sb = I.sb) ∧ (∀ J ∈ qs, Lists i I.sb J) ∧ Lists i I.sb r.image ∧
      r.ending.isRejected = false := by
  obtain ⟨hkind, hneed, hfree, hlt⟩ := happ
  induction hrun generalizing inode with
  | done => simp [Inode.blocksNeeded] at hneed
  | @patch I pos b data inode₁ s r hd hget₁ hk hblock hs next ih =>
    obtain rfl : inode₁ = inode := Option.some.inj (hget₁.symm.trans hget)
    have hJ := h.patch hi hget hk hblock hs (piece_fits pos data)
    have hneed' := hneed
    rw [← blocksNeeded_patch hd hk] at hneed'
    -- there is data left, so the next turn starts in the next block
    have hmore : 121 < pos % 121 + data.length := by
      simp only [Inode.blocksNeeded] at hneed
      split at hneed <;> omega
    have hpiece : (data.take (121 - pos % 121)).length = 121 - pos % 121 := by
      rw [List.length_take]
      omega
    obtain ⟨ps, qs, htrace, hlen, hps, hqs, hend, hrej⟩ :=
      ih hJ hi hget (Or.inr (by omega)) hneed' hfree hlt
    refine ⟨_ :: ps, qs, congrArg (_ :: ·) htrace, ?_, List.forall_mem_cons.mpr ⟨⟨hJ, rfl⟩, hps⟩,
      hqs, hend, hrej⟩
    rw [List.length_cons, hlen, hpiece]
    omega
  | @spoil I pos b data inode₁ s hd hget₁ hk hblock hs hz =>
    obtain rfl : inode₁ = inode := Option.some.inj (hget₁.symm.trans hget)
    have hok := h.layout.inodeOk hi hget
    obtain ⟨_, hk0, hfile, _⟩ := hok.records_block hget hk hblock hs
    rw [hfile] at hkind
    have := hkind.resolve_left (by decide)
    omega
  | @reject I pos b data inode₁ s hd hget₁ hk hblock hs =>
    obtain rfl : inode₁ = inode := Option.some.inj (hget₁.symm.trans hget)
    have hok := h.layout.inodeOk hi hget
    obtain ⟨_, hk0, hfile, _⟩ := hok.records_block hget hk hblock hs.1
    rw [hfile] at hkind
    have := hkind.resolve_left (by decide)
    omega
  | noBlock hd hget₁ hk hb =>
    rw [firstFree_eq_none_iff.mp hb] at hfree
    cases hfree
  | noEntry hd hget₁ hk hb hcount =>
    rw [hget] at hget₁
    cases hget₁
    omega
  | @append I pos b data inode₁ r hd hget₁ hk hb hcount next =>
    obtain rfl : inode₁ = inode := Option.some.inj (hget₁.symm.trans hget)
    have hok := h.layout.inodeOk hi hget
    have hgrown : ((I.takeBlock b).setInode (grown inode₁ b)).inodes i = some (grown inode₁ b) :=
      setInode_grown hok.id_eq _
    have hlists : Lists i I.sb ((I.takeBlock b).setInode (grown inode₁ b)) :=
      ⟨grown inode₁ b, inode₁.blocksCount, b, hgrown, Nat.lt_succ_self _,
        List.getElem?_set_self (by rw [hok.length_eq]; exact hlt),
        (firstFree_eq_some_iff.mp hb).2.1⟩
    have hK := h.append hi hget hcount hb (piece_fits pos data)
    obtain ⟨htrace, hend⟩ := next.lists hK hi hlists
    refine ⟨[], _, rfl, by simp; omega, by simp,
      List.forall_mem_cons.mpr ⟨hlists, List.forall_mem_cons.mpr ⟨hlists, htrace⟩⟩, hend, ?_⟩
    exact next.not_rejected hK hi (or_iff_not_imp_left.mpr fun hrest => pos_after_turn _ hrest)

/-- **A write that does not append** stores images that keep the invariant, with the
    superblock that is on disk. -/
theorem WriteRun.trace_keep (hrun : WriteRun i I pos data r) (h : I.Ok)
    (hi : Taken I.sb.reservedInodesMask i) (hroot : i ≠ 0) (hget : I.inodes i = some inode)
    (hkeep : ¬ I.Appends inode pos data.length) :
    (∀ J ∈ r.trace, J.Ok ∧ J.sb = I.sb) ∧ ({ r.image with sb := I.sb } : Image).Ok := by
  induction hrun generalizing inode with
  | done I pos => exact ⟨by simp, h⟩
  | @patch I pos b data inode₁ s r hd hget₁ hk hblock hs next ih =>
    obtain rfl : inode₁ = inode := Option.some.inj (hget₁.symm.trans hget)
    have hJ := h.patch hi hget hk hblock hs (piece_fits pos data)
    obtain ⟨htrace, hend⟩ := ih hJ hi hget (by
      rintro ⟨_, hneed, hfree, hlt⟩
      rw [blocksNeeded_patch hd hk] at hneed
      refine hkeep ⟨?_, hneed, hfree, hlt⟩
      have hok := h.layout.inodeOk hi hget
      obtain ⟨_, hdir, _⟩ := hok.data_block hget hk hblock hs
      by_contra hnot
      rw [not_or] at hnot
      exact hdir ⟨by omega, by simpa using hnot.1⟩)
    exact ⟨List.forall_mem_cons.mpr ⟨⟨hJ, rfl⟩, htrace⟩, hend⟩
  | spoil hd hget₁ hk hblock hs hz =>
    have hJ := h.spoil hi hroot hget₁ hk hblock hs
    exact ⟨List.forall_mem_singleton.mpr ⟨hJ _, rfl⟩, hJ _⟩
  | reject => exact ⟨by simp, h⟩
  | noBlock => exact ⟨by simp, h⟩
  | noEntry => exact ⟨by simp, h⟩
  | @append I pos b data inode₁ r hd hget₁ hk hb hcount next =>
    obtain rfl : inode₁ = inode := Option.some.inj (hget₁.symm.trans hget)
    have hok := h.layout.inodeOk hi hget
    have hneed := blocksNeeded_append (b := b) hd hk
    have hpos := hok.count_pos
    exact absurd ⟨Or.inr (by omega), by omega, free_pos_of_firstFree hb,
      lt_of_le_of_ne hok.count_le hcount⟩ hkeep

/-! ### The cuts of a command -/

/-- Safe images, then risky ones, then a last one that is safe. -/
theorem getElem?_safe_cases {α : Type} {Safe Risky : α → Prop} {safe risky : List α} {last x : α}
    {j : Nat} (hsafe : ∀ a ∈ safe, Safe a) (hrisky : ∀ a ∈ risky, Risky a) (hlast : Safe last)
    (hx : (safe ++ risky ++ [last])[j]? = some x) :
    (Safe x ∧ ¬ (safe.length ≤ j ∧ j + 1 < (safe ++ risky ++ [last]).length)) ∨
      (Risky x ∧ safe.length ≤ j ∧ j + 1 < (safe ++ risky ++ [last]).length) := by
  rw [List.length_append, List.length_singleton]
  rcases Nat.lt_or_ge j (safe ++ risky).length with hj | hj
  · rw [List.getElem?_append_left hj] at hx
    rcases Nat.lt_or_ge j safe.length with hj' | hj'
    · rw [List.getElem?_append_left hj'] at hx
      exact .inl ⟨hsafe x (List.mem_of_getElem? hx), by omega⟩
    · rw [List.getElem?_append_right hj'] at hx
      exact .inr ⟨hrisky x (List.mem_of_getElem? hx), by omega⟩
  · rw [List.getElem?_append_right hj] at hx
    have hj0 : j - (safe ++ risky).length = 0 := by
      have := (List.getElem?_eq_some_iff.mp hx).1
      rw [List.length_singleton] at this
      omega
    rw [hj0] at hx
    cases hx
    exact .inl ⟨hlast, by omega⟩

/-- The images of a write on an open descriptor: those of its loop, and those of the
    epilogue, of which only the last one has the new superblock. -/
theorem finishWrite_trace (B : Superblock) (fd size : Nat) (hr : r.ending.isRejected = false) :
    (finishWrite B fd size r).trace =
      r.trace.map (·.onDisk B) ++ [(r.image.setPosition fd r.pos).onDisk B,
        (r.image.setPosition fd r.pos).onDisk B, (r.image.setPosition fd r.pos).store] := by
  unfold finishWrite
  rcases hend : r.ending with _ | _ | e
  · rfl
  · rfl
  · rw [hend] at hr
    cases hr

/-- The write of a descriptor appends or not, by its inode and its position. -/
theorem appendsAfter_iff {fd n patches : Nat} (hent : I.dt.Entry fd i pos)
    (hget : I.inodes i = some inode) :
    I.store.AppendsAfter fd n patches ↔
      I.Appends inode pos (min n 968) ∧ patches = inode.blocksCount - pos / 121 := by
  constructor
  · rintro ⟨i', pos', inode', hent', hget', hkind, hneed, hfree, hlt, hpatches⟩
    obtain ⟨rfl, rfl⟩ := hent.unique (descriptor_iff.mp hent')
    rw [store_inodes, hget] at hget'
    cases hget'
    exact ⟨⟨hkind, hneed, hfree, hlt⟩, hpatches⟩
  · rintro ⟨⟨hkind, hneed, hfree, hlt⟩, hpatches⟩
    exact ⟨i, pos, inode, descriptor_iff.mpr hent, hget, hkind, hneed, hfree, hlt, hpatches⟩

/-- **The cuts of a write that appends**: safe up to the first new list, and after the mask
    was stored. -/
theorem WriteRun.cuts_append (hrun : WriteRun i I pos data r) (h : I.Ok) {fd size : Nat}
    (hent : I.dt.Entry fd i pos) (hget : I.inodes i = some inode)
    (happ : I.Appends inode pos data.length) :
    ∃ safe risky, I.store :: (finishWrite I.sb fd size r).trace =
        safe ++ risky ++ [(r.image.setPosition fd r.pos).store] ∧
      safe.length = inode.blocksCount - pos / 121 + 1 ∧
      (∀ st ∈ safe, st.Intact) ∧ ∀ st ∈ risky, ¬ st.NamedBlocksSafe := by
  obtain ⟨htaken, _⟩ := h.descriptor hent.reserved hent.refers
  have hnamed := h.table.used hent
  obtain ⟨ps, qs, htrace, hlen, hps, hqs, hend, hrej⟩ := hrun.trace_append h htaken hget happ
  refine ⟨I.store :: ps.map (·.onDisk I.sb), qs.map (·.onDisk I.sb) ++
    [(r.image.setPosition fd r.pos).onDisk I.sb, (r.image.setPosition fd r.pos).onDisk I.sb],
    ?_, ?_, fun st hst => ?_, fun st hst => ?_⟩
  · rw [finishWrite_trace _ _ _ hrej, htrace]
    simp
  · rw [List.length_cons, List.length_map, hlen]
  · rcases List.mem_cons.mp hst with rfl | hst
    · exact ⟨I, h, rfl⟩
    · obtain ⟨J, hJ, rfl⟩ := List.mem_map.mp hst
      obtain ⟨hJok, hJsb⟩ := hps J hJ
      rw [← hJsb]
      exact ⟨J, hJok, rfl⟩
  · rcases List.mem_append.mp hst with hst | hst
    · obtain ⟨J, hJ, rfl⟩ := List.mem_map.mp hst
      have hsame := hrun.trace_sameTree h htaken J (htrace ▸ List.mem_append_right _ hJ)
      exact hsame.not_namedBlocksSafe hnamed (hqs J hJ)
    · -- the epilogue before the superblock is stored
      have hlast : ¬ ((r.image.setPosition fd r.pos).onDisk I.sb).NamedBlocksSafe :=
        (hrun.sameTree h htaken).not_namedBlocksSafe hnamed hend
      simp only [List.mem_cons, List.not_mem_nil, or_false, or_self] at hst
      rw [hst]
      exact hlast

/-- **The cuts of a write that does not append** are all safe. -/
theorem WriteRun.cuts_keep (hrun : WriteRun i I pos data r) (h : I.Ok) {fd size : Nat}
    (hent : I.dt.Entry fd i pos) (hget : I.inodes i = some inode)
    (hkeep : ¬ I.Appends inode pos data.length) :
    ∀ st ∈ I.store :: (finishWrite I.sb fd size r).trace, st.Intact := by
  obtain ⟨htaken, hroot⟩ := h.descriptor hent.reserved hent.refers
  obtain ⟨htrace, hend⟩ := hrun.trace_keep h htaken hroot hget hkeep
  have hloop : ∀ st ∈ r.trace.map (·.onDisk I.sb), st.Intact := by
    intro st hst
    obtain ⟨K, hK, rfl⟩ := List.mem_map.mp hst
    obtain ⟨hKok, hKsb⟩ := htrace K hK
    rw [← hKsb]
    exact ⟨K, hKok, rfl⟩
  refine List.forall_mem_cons.mpr ⟨⟨I, h, rfl⟩, ?_⟩
  rcases hrej : r.ending.isRejected with _ | _
  · rw [finishWrite_trace _ _ _ hrej]
    refine List.forall_mem_append.mpr ⟨hloop, fun st hst => ?_⟩
    -- the table is stored before the superblock
    have hold : ((r.image.setPosition fd r.pos).onDisk I.sb).Intact :=
      ⟨_, hend.setPosition fun j inode hj hget => h.position_le hent hrun hj hget, rfl⟩
    have hdone : (r.image.setPosition fd r.pos).store.Intact :=
      ⟨_, (hrun.ok h htaken hroot).setPosition fun j inode hj hget =>
        h.position_le hent hrun hj hget, rfl⟩
    simp only [List.mem_cons, List.not_mem_nil, or_false] at hst
    rcases hst with rfl | rfl | rfl
    · exact hold
    · exact hold
    · exact hdone
  · -- a rejected write stops before its epilogue
    rcases hend : r.ending with _ | _ | e
    · rw [hend] at hrej
      cases hrej
    · rw [hend] at hrej
      cases hrej
    · simpa only [finishWrite, hend] using hloop

/-- **The cuts of a write**, on an image. -/
theorem Ok.write_cut_cases (h : I.Ok) {fd j : Nat} {st : Store}
    (hst : (I.store :: (I.write fd data).trace)[j]? = some st) :
    (st.Intact ∧ ¬ ∃ patches, I.store.AppendsAfter fd data.length patches ∧ patches < j ∧
        j + 1 < (I.store :: (I.write fd data).trace).length) ∨
      (¬ st.NamedBlocksSafe ∧ ∃ patches, I.store.AppendsAfter fd data.length patches ∧
        patches < j ∧ j + 1 < (I.store :: (I.write fd data).trace).length) := by
  have hnone : (I.write fd data).trace = [] → st.Intact ∧ ∀ patches,
      ¬ (patches < j ∧ j + 1 < (I.store :: (I.write fd data).trace).length) := by
    intro heq
    rw [heq] at hst ⊢
    obtain rfl := List.mem_singleton.mp (List.mem_of_getElem? hst)
    exact ⟨⟨I, h, rfl⟩, fun patches hj => by
      have := hj.2
      simp at this⟩
  rcases h.write_cases fd data with ⟨_, heq, _⟩ | ⟨_, heq, _⟩ |
    ⟨i, pos, r, hres, hi, hpos, hrun, heq, _⟩
  · obtain ⟨hsafe, hlen⟩ := hnone (by rw [heq])
    exact .inl ⟨hsafe, fun ⟨patches, _, hj⟩ => hlen patches hj⟩
  · obtain ⟨hsafe, hlen⟩ := hnone (by rw [heq])
    exact .inl ⟨hsafe, fun ⟨patches, _, hj⟩ => hlen patches hj⟩
  have hent : I.dt.Entry fd i pos := ⟨hres, hi, hpos⟩
  obtain ⟨htaken, hroot⟩ := h.descriptor hres hi
  obtain ⟨inode, hget, _⟩ := h.layout.inode htaken
  have hlen : (data.take 968).length = min data.length 968 := by
    rw [List.length_take, Nat.min_comm]
  simp only [appendsAfter_iff hent hget, ← hlen]
  rw [heq] at hst ⊢
  by_cases happ : I.Appends inode pos (data.take 968).length
  · obtain ⟨safe, risky, hlist, hsize, hsafe, hrisky⟩ := hrun.cuts_append h hent hget happ
    have hlast : (r.image.setPosition fd r.pos).store.Intact :=
      ⟨_, (hrun.ok h htaken hroot).setPosition fun j inode hj hget =>
        h.position_le hent hrun hj hget, rfl⟩
    rw [hlist] at hst ⊢
    have hcases := getElem?_safe_cases hsafe hrisky hlast hst
    rw [hsize] at hcases
    refine hcases.imp (And.imp_right fun hj => ?_) (And.imp_right fun hj => ⟨_, ⟨happ, rfl⟩, hj⟩)
    rintro ⟨_, ⟨_, rfl⟩, hj'⟩
    exact hj hj'
  · exact .inl ⟨hrun.cuts_keep h hent hget happ st (List.mem_of_getElem? hst),
      fun ⟨_, ⟨happ', _⟩, _⟩ => happ happ'⟩

/-- The cuts of a creation are images of the creation. -/
theorem Ok.cuts_create (h : I.Ok) (isFile : Bool) (path : CString) (F : HostFiles) :
    I.store :: ((createCommand isFile path.bytes).run hostHandler
        (⟨I.store, F⟩ : World).start).2.log.reverse =
      (I :: (I.create isFile path.bytes).trace).map Image.store := by
  obtain ⟨L', hrun⟩ := h.run_create (F := F) isFile path.bytes path.nulFree
  rw [World.start, hrun, List.reverse_reverse]
  rfl

/-- The cuts of a write are images of the write. -/
theorem Ok.cuts_write (h : I.Ok) (fd : Nat) (data : List UInt8) (F : HostFiles) :
    cuts (.write fd data) ⟨I.store, F⟩ = I.store :: (I.write fd data).trace := by
  obtain ⟨L', hrun⟩ := h.run_writeToFile (F := F) fd data
  have hlog : ((Command.write fd data).prog.run hostHandler (⟨I.store, F⟩ : World).start).2 =
      ((writeToFile fd data).run hostHandler ⟨I.store, F, [], []⟩).2 := by
    simp only [Command.prog, World.start, Prog.run_bind, hrun]
    rcases (I.write fd data).outcome with a | e
    · rfl
    · rfl
  rw [cuts, hlog, hrun, List.reverse_reverse]

/-- The cuts of a creation are all safe. -/
theorem Ok.create_cut_intact (h : I.Ok) (isFile : Bool) (path : CString) :
    ∀ st ∈ (I :: (I.create isFile path.bytes).trace).map Image.store, st.Intact := by
  intro st hst
  obtain ⟨J, hJ, rfl⟩ := List.mem_map.mp hst
  rcases List.mem_cons.mp hJ with rfl | hJ
  · exact ⟨J, h, rfl⟩
  · exact ⟨J, (h.createRun isFile path.bytes).trace_ok h path.nulFree J hJ, rfl⟩

end Image

/-- The blocks of its named inodes are safe. -/
theorem Store.Intact.namedBlocksSafe {st : Store} (h : st.Intact) : st.NamedBlocksSafe := by
  obtain ⟨I, hI, rfl⟩ := h
  exact hI.namedBlocksSafe

/-- And no block has two owners. -/
theorem Store.Intact.wellLinked {st : Store} (h : st.Intact) : ∃ sb, st.WellLinked sb := by
  obtain ⟨I, hI, rfl⟩ := h
  exact ⟨I.sb, hI.layout.wellLinked⟩

/-- **Later commands** keep the invariant. -/
theorem World.Later.intact {w w' : World} (h : w.Later w') (hw : w.store.Intact) :
    w'.store.Intact := by
  induction h with
  | refl => exact hw
  | @step w' c _ _ ih =>
    obtain ⟨I, hI, hstore⟩ := ih
    obtain ⟨st, files⟩ := w'
    obtain rfl : I.store = st := hstore
    rw [hI.step_after]
    exact ⟨I.after files c, hI.after_ok files c, rfl⟩
  | host files _ ih => exact ih

/-- **Every cut** of a creation or a write keeps the invariant, or is unsafe at once. -/
theorem cut_cases {w : World} (hw : Reachable w) {c : Command} (hc : c.Updates) {j : Nat}
    {st : Store} (hst : (cuts c w)[j]? = some st) :
    (st.Intact ∧ ¬ UnsafeCut w c j) ∨ (¬ st.NamedBlocksSafe ∧ UnsafeCut w c j) := by
  obtain ⟨I, hI, hstore⟩ := hw.image
  rw [hstore] at hst ⊢
  cases c with
  | mkdir path =>
    rw [cuts, show (Command.mkdir path).prog = createCommand false path.bytes from rfl,
      hI.cuts_create] at hst
    exact .inl ⟨hI.create_cut_intact false path st (List.mem_of_getElem? hst), id⟩
  | touch path =>
    rw [cuts, show (Command.touch path).prog = createCommand true path.bytes from rfl,
      hI.cuts_create] at hst
    exact .inl ⟨hI.create_cut_intact true path st (List.mem_of_getElem? hst), id⟩
  | write fd data =>
    rw [hI.cuts_write] at hst
    simp only [UnsafeCut, hI.cuts_write]
    exact hI.write_cut_cases hst
  | _ => exact absurd hc id

/-- **Cuts.**  In every reachable image, a creation or a write can be cut short after any of
    its host writes, except for a write that appends, between its first new list and the
    mask. -/
theorem cut_safe_iff {w : World} (hw : Reachable w) {c : Command} (hc : c.Updates) {j : Nat}
    {st : Store} (hst : (cuts c w)[j]? = some st) : st.NamedBlocksSafe ↔ ¬ UnsafeCut w c j := by
  rcases cut_cases hw hc hst with ⟨hsafe, hcut⟩ | ⟨hrisky, hcut⟩
  · exact iff_of_true hsafe.namedBlocksSafe hcut
  · exact iff_of_false hrisky (not_not_intro hcut)

/-- A creation that stops after it stored the inode. -/
theorem cut_safe_create : ∃ st,
    (cuts (.touch pathF) ((World.mk .blank .onlyImage).step .init))[2]? = some st ∧
      st.NamedBlocksSafe := by
  have hlt : 2 < (cuts (.touch pathF) ((World.mk .blank .onlyImage).step .init)).length := by
    decide +kernel
  exact ⟨_, List.getElem?_eq_getElem hlt,
    (cut_safe_iff (Reachable.init _) (c := .touch pathF) trivial
      (List.getElem?_eq_getElem hlt)).mpr id⟩

/-- **What follows a safe cut.**  Whatever is done later gives no block to a second inode, and
    leaves every block of a named inode its own number and the number of that inode, so that none
    of them is written through its header elsewhere. -/
theorem safe_cut_later {w : World} (hw : Reachable w) {c : Command} (hc : c.Updates) {j : Nat}
    {st : Store} (hst : (cuts c w)[j]? = some st) (hcut : ¬ UnsafeCut w c j) {F : HostFiles}
    {w' : World} (hlater : World.Later ⟨st, F⟩ w') :
    (∃ sb, w'.store.WellLinked sb) ∧ w'.store.NamedBlocksSafe := by
  rcases cut_cases hw hc hst with ⟨hsafe, _⟩ | ⟨_, hrisky⟩
  · have hend := hlater.intact hsafe
    exact ⟨hend.wellLinked, hend.namedBlocksSafe⟩
  · exact absurd hrisky hcut

/-- A list that leads to a free block. -/
theorem Store.not_namedBlocksSafe {st : Store} {d k b : Nat} {r : BlockRecord} {inode : Inode}
    (hd : st.IsDir d) (hr : r ∈ st.records d) (hget : st.inodes r.inodeId = some inode)
    (hk : k < inode.blocksCount) (hb : inode.blockIds[k]? = some b) (hfree : ¬ st.BlockReserved b) :
    ¬ st.NamedBlocksSafe := by
  intro hsafe
  obtain ⟨b', _, hb', ht, _⟩ := hsafe d r inode k hd hr hget hk
  rw [hb] at hb'
  cases hb'
  exact hfree ht

/-- The image that a write of 122 bytes to an empty file leaves when it stops after its
    second host write. -/
def cutStore : Store :=
  ((cuts (.write 0 (List.replicate 122 1)) openedWorld)[2]?).getD .blank

/-- It is one of the cuts of this write. -/
theorem getElem?_cutStore :
    (cuts (.write 0 (List.replicate 122 1)) openedWorld)[2]? = some cutStore := by
  have hlt : 2 < (cuts (.write 0 (List.replicate 122 1)) openedWorld).length := by decide +kernel
  rw [cutStore, List.getElem?_eq_getElem hlt, Option.getD_some]

/-- The inode of `/f` lists block 2, which is free. -/
theorem cutStore_not_safe : Reachable openedWorld ∧
    (cuts (.write 0 (List.replicate 122 1)) openedWorld)[2]? = some cutStore ∧
    ¬ cutStore.NamedBlocksSafe :=
  ⟨reachable_openedWorld, getElem?_cutStore,
    Store.not_namedBlocksSafe (d := 0) (k := 1) (b := 2)
      (r := ⟨1, nameField defaultFsInfo [102]⟩) (by decide +kernel) (by decide +kernel)
      (show _ = some ⟨1, 2, true, [1, 2, 0, 0, 0, 0, 0, 0]⟩ by decide +kernel) (by decide)
      (by decide) (by decide +kernel)⟩

end MiniExt
