import MiniExt.Ideal.Descriptors

namespace MiniExt

open Lib

/-!
# Ideal — the data of files

A read returns what the content of the file holds from its position on, and a write lays its data
over it.  A write takes as many free blocks as the longer content needs.

* `WriteRun.freeBlocks` — a loop that is complete takes the blocks it lists;
* `FileDescriptor.write_fits` — the content after a write, its blocks and its position;
* `Models.overlaid` — what the users of the image see then;
* `Models.reads`, `Models.writes` — the calls.
-/

namespace Image

variable {I K : Image} {fs : IdealFs} {inode : Inode} {data c : List UInt8}
  {p : List (List UInt8)} {fd i pos pos' size capacity : Nat}

/-- What an entry of the table is for, where descriptors are for files. -/
theorem Tidy.fileDescriptor (ht : I.Tidy) (hent : I.dt.Entry fd i pos) :
    ∃ inode, I.FileDescriptor fd i pos inode := by
  obtain ⟨htaken, _⟩ := ht.ok.descriptor hent.reserved hent.refers
  obtain ⟨_, inode, hget, hkind⟩ := ht.ok.isFile_of_not_isDir htaken (ht.apart.table hent)
  exact ⟨inode, hent.reserved, hent.refers, hent.position, hget, hkind⟩

/-- The descriptor of a file is an entry of the table. -/
theorem FileDescriptor.entry (hd : I.FileDescriptor fd i pos inode) : I.dt.Entry fd i pos :=
  ⟨hd.reserved, hd.refers, hd.position⟩

/-! ### Reading -/

/-- **A read** that ends inside the largest file. -/
theorem Models.reads (hm : I.Models fs) (ht : I.Tidy) (hfd : fd < defaultLimits.descriptors)
    (hcap : min size 968 ≤ capacity) (hinside : fs.EndsInside defaultLimits fd size) :
    (I.read fd size capacity).1 = .done (fs.read fd size).1 ∧
      (I.read fd size capacity).2.Tidy ∧
      (I.read fd size capacity).2.Models (fs.read fd size).2 := by
  have hok := ht.ok.read_ok fd size capacity
  unfold FileSystem.read FileSystem.EndsInside at *
  rcases hm.descriptor_cases ht hfd with ⟨hres, hfile⟩ | ⟨i, pos, p, hent, hp, hfile⟩
  · have hread : I.read fd size capacity = (.done none, I) := by
      simp only [read, hres]
    rw [hfile, hread]
    exact ⟨rfl, ht, hm⟩
  obtain ⟨inode, hd⟩ := ht.fileDescriptor hent
  have hsnug := ht.snug (hd.taken ht.ok) (ht.apart.table hent)
  have hpos := ht.inside hent
  have hle := hd.length_content_le ht.ok
  have hcount := (hd.ok ht.ok).count_le
  rw [hfile] at hinside ⊢
  dsimp only at hinside ⊢
  generalize hc : content 121 (I.store.chunks i) = c at hpos hle hinside ⊢
  -- the content ends before a longer read does
  have hgot : readChunks 121 (min size 968) (I.store.chunks i) pos (min size 968) =
      (c.drop pos).take size := by
    rw [hsnug.gapFree.readChunks_eq (by decide) _ _ _ (Nat.le_refl _), hc,
      List.take_eq_take_iff, List.length_drop]
    omega
  have hlen : ((c.drop pos).take size).length = min size (c.length - pos) := by
    rw [List.length_take, List.length_drop]
  have hoff : ∀ v, (I.store.chunks i)[pos / 121]? = some v → pos % 121 ≤ v.length := fun v hv =>
    hsnug.gapFree.mod_le_length (by decide) (hc ▸ hpos) hv
  have hlast : pos + ((c.drop pos).take size).length < 968 ∨ pos + min size 968 ≤ 968 := by
    rcases hinside with hshort | hend
    · exact Or.inl (lt_of_le_of_lt (by omega) (show c.length < 968 from hshort))
    · exact Or.inr (le_trans (by omega) (show pos + size ≤ 968 from hend))
  rw [hd.read_eq ht.ok hcap hoff (by omega) hgot hlast] at hok ⊢
  exact ⟨rfl, hm.moved ht hent hp hok (by rw [hc]; omega)⟩

/-! ### Writing -/

/-- **A loop that is complete** takes the blocks it lists. -/
theorem WriteRun.freeBlocks {r : WriteEnd} (hrun : WriteRun i I pos data r) (h : I.Ok)
    (hi : Taken I.sb.reservedInodesMask i) (hget : I.inodes i = some inode) (hrest : r.rest = []) :
    ∃ inode', r.image.inodes i = some inode' ∧
      inode'.blocksCount + r.image.store.freeBlocks = inode.blocksCount + I.store.freeBlocks := by
  induction hrun generalizing inode with
  | done => exact ⟨inode, hget, rfl⟩
  | @patch I pos b data inode₁ s r hd hget₁ hk hblock hs next ih =>
    exact ih (h.patch hi hget₁ hk hblock hs (piece_fits pos data)) hi hget hrest
  | spoil hd => exact absurd hrest hd
  | reject hd => exact absurd hrest hd
  | noBlock hd => exact absurd hrest hd
  | noEntry hd => exact absurd hrest hd
  | @append I pos b data inode₁ r hd hget₁ hk hb hcount next ih =>
    obtain rfl : inode₁ = inode := Option.some.inj (hget₁.symm.trans hget)
    have hok := h.layout.inodeOk hi hget
    obtain ⟨inode', hget', hsum⟩ := ih (h.append hi hget hcount hb (piece_fits pos data)) hi
      (setInode_grown hok.id_eq _) hrest
    refine ⟨inode', hget', hsum.trans ?_⟩
    -- one block more is listed, and one less is free
    have hfree : free (I.takeBlock b).sb.reservedBlocksMask = free I.sb.reservedBlocksMask - 1 :=
      free_set hb
    have hpos := free_pos_of_firstFree hb
    show inode₁.blocksCount + 1 + free (I.takeBlock b).sb.reservedBlocksMask =
      inode₁.blocksCount + free I.sb.reservedBlocksMask
    omega

/-- So does a write that is complete. -/
theorem FileDescriptor.freeBlocks_written (hd : I.FileDescriptor fd i pos inode) (h : I.Ok)
    (hlen : data.length ≤ 968) (hdone : (I.write fd data).outcome = .done (some data.length)) :
    ((I.written fd data).store.chunks i).length + (I.written fd data).store.freeBlocks =
      (I.store.chunks i).length + I.store.freeBlocks := by
  have hK := h.written_ok fd data
  obtain ⟨_, _, inode₂, hd₂⟩ := hd.write_eq h hlen rfl
  rw [hd.length_chunks h, hd₂.length_chunks hK]
  rcases h.write_cases fd data with ⟨hres, _⟩ | ⟨hres, _⟩ |
    ⟨i', pos', r, _, hi', _, hrun, hwrite, hwritten⟩
  · rw [hd.reserved] at hres
    cases hres
  · rw [hd.reserved] at hres
    cases hres
  obtain rfl : i' = i := Option.some.inj (hi'.symm.trans hd.refers)
  obtain ⟨_, _, hend⟩ := hrun.chunks h (hd.taken h) hd.record hd.isFile _ (Nat.le_refl _)
  have hrest : r.rest = [] := by
    by_contra hrest
    rw [hwrite, finishWrite, hend, if_neg hrest] at hdone
    cases hdone
  rw [hrest, if_pos rfl] at hend
  have hsettled : r.settled fd = r.image.setPosition fd r.pos := by
    rw [WriteEnd.settled, hend]
    exact if_neg (by decide)
  obtain ⟨inode', hget', hsum⟩ := hrun.freeBlocks h (hd.taken h) hd.record hrest
  have hget₂ := hd₂.record
  rw [hwritten, hsettled] at hget₂ ⊢
  obtain rfl : inode' = inode₂ := Option.some.inj (hget'.symm.trans hget₂)
  exact hsum

/-- **A write that fits** lays its data over the content of the file. -/
theorem FileDescriptor.write_fits (hd : I.FileDescriptor fd i pos inode) (ht : I.Tidy)
    (hc : content 121 (I.store.chunks i) = c)
    (hfits : data = [] ∨ CutsNothing 121 c pos data ∧ pos + data.length ≤ 968 ∧
      FileSystem.blocksAdded defaultLimits c pos data ≤ I.store.freeBlocks) :
    (I.write fd data).outcome = .done (some data.length) ∧
      Snug 121 ((I.written fd data).store.chunks i) ∧
      content 121 ((I.written fd data).store.chunks i) = overlay c pos data ∧
      (I.written fd data).dt.Entry fd i (pos + data.length) ∧
      (I.written fd data).store.freeBlocks =
        I.store.freeBlocks - FileSystem.blocksAdded defaultLimits c pos data := by
  have h := ht.ok
  have hsnug := ht.snug (hd.taken h) (ht.apart.table hd.entry)
  have hpos := ht.inside hd.entry
  have hblocks := hsnug.length_eq (by decide)
  have hcount := (hd.ok h).count_le
  have hlisted := hd.length_chunks h
  -- the blocks that are free are enough
  have hroom : data = [] ∨ CutsNothing 121 c pos data ∧
      pos + data.length ≤ 121 * ((I.store.chunks i).length + I.room inode) := by
    refine hfits.imp_right fun ⟨hcuts, hend, hadded⟩ => ⟨hcuts, ?_⟩
    have hmax := length_overlay_eq data hpos
    have hneeded := le_mul_chunksFor (show 0 < 121 by decide) (overlay c pos data).length
    have hroom : I.room inode = min I.store.freeBlocks (8 - inode.blocksCount) := rfl
    change chunksFor 121 _ - chunksFor 121 _ ≤ _ at hadded
    rw [hc] at hmax hblocks
    omega
  have hlen : data.length ≤ 968 := by
    rcases hfits with rfl | ⟨_, hend, _⟩
    · exact Nat.zero_le _
    · omega
  obtain ⟨hout, hchunks, inode', hd'⟩ := hd.write_eq h hlen rfl
  obtain ⟨hrest, hsnug', hcontent⟩ := hsnug.overlays (z := 0) (by decide) (Nat.le_refl _) hpos
    (hc ▸ hroom)
  rw [hrest, if_pos rfl] at hout
  rw [hrest, List.length_nil, Nat.sub_zero] at hd'
  have hsum := hd.freeBlocks_written h hlen hout
  rw [← hchunks] at hsnug' hcontent
  rw [hc] at hcontent hblocks
  refine ⟨hout, hsnug', hcontent, hd'.entry, ?_⟩
  have hblocks' := hsnug'.length_eq (by decide)
  rw [hcontent] at hblocks'
  have hmono := chunksFor_mono 121 (show c.length ≤ (overlay c pos data).length by
    rw [length_overlay_eq data (hc ▸ hpos)]
    exact Nat.le_max_left _ _)
  show _ = _ - (chunksFor 121 _ - chunksFor 121 _)
  omega

/-- `K` has content `c` in file `i`, and descriptor `fd` is for it, at position `pos`; nothing else
    is different. -/
structure Overlaid (I K : Image) (fd i : Nat) (c : List UInt8) (pos : Nat) : Prop where
  tree : SameTree I K
  snug : Snug 121 (K.store.chunks i)
  content_eq : content 121 (K.store.chunks i) = c
  others : ∀ {x}, Taken I.sb.reservedInodesMask x → x ≠ i → K.store.chunks x = I.store.chunks x
  entry : K.dt.Entry fd i pos
  entries : ∀ {fd' j q}, fd' ≠ fd → (K.dt.Entry fd' j q ↔ I.dt.Entry fd' j q)
  freeInodes : K.store.freeInodes = I.store.freeInodes

/-- The names lead where they led. -/
theorem SameTree.locates (h : SameTree I K) : K.store.Locates p i ↔ I.store.Locates p i := by
  refine DirTree.leads_congr h.dir fun d hd => ?_
  rw [Store.nameTree_named, Store.nameTree_named, h.namedRecords hd]

namespace Overlaid

variable (hover : I.Overlaid K fd i c pos')

include hover

/-- The nodes of the other inodes stay. -/
theorem nodeOf_old {j : Nat} (hj : Taken I.sb.reservedInodesMask j) (hne : j ≠ i) :
    K.store.nodeOf j = I.store.nodeOf j := by
  by_cases hd : I.store.IsDir j
  · rw [Store.nodeOf_dir hd, Store.nodeOf_dir ((hover.tree.dir j).mpr hd),
      hover.tree.namedRecords hd]
  · rw [Store.nodeOf_file hd, Store.nodeOf_file ((hover.tree.dir j).not.mpr hd),
      hover.others hj hne]

/-- **The new content.** -/
theorem models (hm : I.Models fs) (ht : I.Tidy) (hfile : ¬ I.store.IsDir i)
    (hp : I.store.Locates p i) {added : Nat}
    (hfree : K.store.freeBlocks = I.store.freeBlocks - added) :
    K.Models { fs.point fd p pos' with
      node := Function.update fs.node p (some (.file c))
      freeBlocks := fs.freeBlocks - added } := by
  have hnode : K.store.nodeOf i = .file c := by
    rw [Store.nodeOf_file ((hover.tree.dir i).not.mpr hfile), hover.content_eq]
  refine ⟨fun q n => ?_, fun fd' q pos₀ => ?_, ?_, ?_⟩
  · show Function.update fs.node p _ q = some n ↔ _
    simp only [hover.tree.locates]
    by_cases hq : q = p
    · subst hq
      rw [Function.update_self, Option.some.injEq]
      constructor
      · intro heq
        exact ⟨i, hp, hnode.trans heq⟩
      · rintro ⟨j, hj, heq⟩
        obtain rfl := ht.distinct.locates_unique hj hp
        exact hnode.symm.trans heq
    · rw [Function.update_of_ne hq, hm.node]
      refine exists_congr fun j => and_congr_right fun hj => ?_
      rw [hover.nodeOf_old (ht.ok.taken_of_locates hj)]
      rintro rfl
      exact hq (ht.ok.locates_inj hj hp)
  · have hpointed := hm.pointed ht.ok hp hover.entry hover.entries
    refine (hpointed.opened fd' q pos₀).trans (exists_congr fun j => ?_)
    rw [hover.tree.locates]
    exact Iff.rfl
  · rw [hover.freeInodes, ← hm.freeNodes]
    rfl
  · rw [hfree, ← hm.freeBlocks]

/-- The image stays tidy when the position stays inside the file. -/
theorem tidy (ht : I.Tidy) (hK : K.Ok) (hapart : K.Apart) (hpos : pos' ≤ c.length) : K.Tidy := by
  refine ⟨hK, hover.tree.distinct ht.distinct, hapart, fun {j} hj hdir => ?_,
    fun {fd' j q} hent => ?_⟩
  · by_cases hji : j = i
    · exact hji ▸ hover.snug
    · have hold := (hover.tree.live j).mp hj
      rw [hover.others hold hji]
      exact ht.snug hold ((hover.tree.dir j).not.mp hdir)
  · by_cases hfd : fd' = fd
    · subst hfd
      obtain ⟨rfl, rfl⟩ := hover.entry.unique hent
      rwa [hover.content_eq]
    · have hji : j ≠ i := by
        rintro rfl
        exact hfd (hK.table.distinct hent hover.entry)
      have hold := (hover.entries hfd).mp hent
      rw [hover.others (ht.ok.descriptor hold.reserved hold.refers).1 hji]
      exact ht.inside hold

end Overlaid

/-- A write takes no inodes. -/
theorem Ok.freeInodes_written (h : I.Ok) (fd : Nat) (data : List UInt8) :
    (I.written fd data).store.freeInodes = I.store.freeInodes := by
  rcases h.write_cases fd data with ⟨_, _, heq⟩ | ⟨_, _, heq⟩ | ⟨_, _, r, _, _, _, hrun, _, heq⟩
  · rw [heq]
  · rw [heq]
  · have hmask := congrArg free hrun.inodesMask
    rw [heq, WriteEnd.settled]
    split
    · exact hmask
    · exact hmask

/-- **A write** that fits. -/
theorem Models.writes (hm : I.Models fs) (ht : I.Tidy) (hfd : fd < defaultLimits.descriptors)
    (hfits : fs.Fits defaultLimits fd data) :
    (I.write fd data).outcome = .done (fs.write defaultLimits fd data).1 ∧
      (I.written fd data).Tidy ∧
      (I.written fd data).Models (fs.write defaultLimits fd data).2 := by
  unfold FileSystem.write FileSystem.Fits at *
  rcases hm.descriptor_cases ht hfd with ⟨hres, hfile⟩ | ⟨i, pos, p, hent, hp, hfile⟩
  · rw [hfile, write, written, hres]
    exact ⟨rfl, ht, hm⟩
  obtain ⟨inode, hd⟩ := ht.fileDescriptor hent
  rw [hfile] at hfits ⊢
  dsimp only at hfits ⊢
  rw [hm.freeBlocks] at hfits
  obtain ⟨hdone, hsnug, hcontent, hentry, hfree⟩ := hd.write_fits ht rfl hfits
  have hmoved := ht.ok.movedAt_written fd data
  have hover : I.Overlaid (I.written fd data) fd i
      (overlay (content 121 (I.store.chunks i)) pos data) (pos + data.length) :=
    { tree := ht.ok.sameTree_written fd data, snug := hsnug, content_eq := hcontent,
      others := fun hx hne => (ht.ok.sameInode_written fd data hx fun q hq =>
        hne (hq.unique hent).1).chunks,
      entry := hentry,
      entries := fun hne => ⟨fun h => (hmoved.entry h).2 hne, fun h => h.movedAt hmoved hne⟩,
      freeInodes := ht.ok.freeInodes_written fd data }
  have hend : pos + data.length ≤ (overlay (content 121 (I.store.chunks i)) pos data).length := by
    rw [length_overlay_eq data (ht.inside hent)]
    exact Nat.le_max_right _ _
  exact ⟨hdone, hover.tidy ht (ht.ok.written_ok fd data) (ht.apart.written ht.ok fd data) hend,
    hover.models hm ht (ht.apart.table hent) hp hfree⟩

end Image

end MiniExt
