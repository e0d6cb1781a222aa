import MiniExt.Invariant.Layout

namespace MiniExt

open Lib

/-!
# Changes that keep the invariant

The directory tree and the descriptor table under the changes of the previous module, and
the invariant as a whole under each of them.

* `SameTree` — changes that no directory notices;
* `Ok.scratch`, `Ok.setSlot`, `Ok.grow`, `Ok.alloc`, `Ok.link` — the changes of the blocks;
* `Ok.setPosition`, `Ok.freeDescriptor`, `Ok.reserveDescriptor` — the changes of the table.
-/

namespace Image

variable {I J : Image}

/-! ### Changes that no directory notices -/

/-- The two images reserve the same inodes, with the same kinds and the same records, and no
    block list shrinks. -/
structure SameTree (I J : Image) : Prop where
  grows : ∀ i inode, Taken I.sb.reservedInodesMask i → I.inodes i = some inode →
    ∃ inode', J.inodes i = some inode' ∧ inode.blocksCount ≤ inode'.blocksCount
  live : ∀ i, J.store.InodeReserved i ↔ I.store.InodeReserved i
  dir : ∀ d, J.store.IsDir d ↔ I.store.IsDir d
  records : ∀ d, I.store.IsDir d → J.store.records d = I.store.records d

/-- An image has the tree it has. -/
theorem SameTree.refl (I : Image) : SameTree I I :=
  ⟨fun _ inode _ hget => ⟨inode, hget, Nat.le_refl _⟩, fun _ => Iff.rfl, fun _ => Iff.rfl,
    fun _ _ => rfl⟩

/-- Two changes that keep the tree keep it together. -/
theorem SameTree.trans {K : Image} (h : SameTree I J) (h' : SameTree J K) : SameTree I K where
  grows i inode hi hget := by
    obtain ⟨inode', hget', hle⟩ := h.grows i inode hi hget
    obtain ⟨inode'', hget'', hle'⟩ := h'.grows i inode' ((h.live i).mpr hi) hget'
    exact ⟨inode'', hget'', hle.trans hle'⟩
  live i := (h'.live i).trans (h.live i)
  dir d := (h'.dir d).trans (h.dir d)
  records d hd := (h'.records d ((h.dir d).mpr hd)).trans (h.records d hd)

/-- The parent of a directory is the same. -/
theorem SameTree.parentOf (h : SameTree I J) {d : Nat} (hd : I.store.IsDir d) :
    J.store.parentOf d = I.store.parentOf d := by
  simp only [Store.parentOf, h.records d hd]

/-- So are its names. -/
theorem SameTree.namedRecords (h : SameTree I J) {d : Nat} (hd : I.store.IsDir d) :
    J.store.namedRecords d = I.store.namedRecords d := by
  simp only [Store.namedRecords, h.records d hd]

/-- The directories are well-formed as before. -/
theorem SameTree.directories (h : SameTree I J) (hI : I.Directories) : J.Directories where
  tree := hI.tree.congr h.live h.dir (fun _ hd => h.parentOf hd) fun d hd => by
    show (J.store.namedRecords d).map _ = (I.store.namedRecords d).map _
    rw [h.namedRecords hd]
  names {d} hd r hr := by
    have hd := (h.dir d).mp hd
    rw [h.namedRecords hd] at hr
    exact hI.names hd r hr

/-- What was named is named. -/
theorem SameTree.named (h : SameTree I J) {i : Nat} (hi : I.store.tree.Named i) :
    J.store.tree.Named i := by
  obtain ⟨d, hd, e, he, heq⟩ := hi
  refine ⟨d, (h.dir d).mpr hd, e, ?_, heq⟩
  show e ∈ (J.store.namedRecords d).map _
  rw [h.namedRecords hd]
  exact he

/-- Directories keep their kind and first block number, and the blocks keep their
    records. -/
theorem SameTree.of (hI : I.Layout)
    (hlive : ∀ i, Taken J.sb.reservedInodesMask i ↔ Taken I.sb.reservedInodesMask i)
    (hinodes : ∀ i inode, Taken I.sb.reservedInodesMask i → I.inodes i = some inode →
      ∃ inode', J.inodes i = some inode' ∧ inode.blocksCount ≤ inode'.blocksCount ∧
        inode'.isFile = inode.isFile ∧
        (I.InodeOk i inode → inode'.blockIds[0]? = inode.blockIds[0]?))
    (hslots : ∀ b s, Taken I.sb.reservedBlocksMask b → I.slots b = some s →
      ∃ s', J.slots b = some s' ∧ s'.records = s.records) : SameTree I J where
  grows i inode hi hget := by
    obtain ⟨inode', hget', hle, _⟩ := hinodes i inode hi hget
    exact ⟨inode', hget', hle⟩
  live := hlive
  dir d := by
    have hkind : ∀ {inode}, Taken I.sb.reservedInodesMask d → I.inodes d = some inode →
        (J.store.HasKind false d ↔ inode.isFile = false) := by
      intro inode hd hi
      obtain ⟨inode', hi', _, hf, _⟩ := hinodes d inode hd hi
      rw [← hf]
      refine ⟨fun ⟨x, hx, hxf⟩ => ?_, fun h => ⟨inode', hi', h⟩⟩
      rw [store_inodes, hi'] at hx
      cases hx
      exact hxf
    constructor
    · rintro ⟨hres, hk⟩
      have hres := (hlive d).mp hres
      obtain ⟨inode, hi, _⟩ := hI.inode hres
      exact ⟨hres, inode, hi, (hkind hres hi).mp hk⟩
    · rintro ⟨hres, inode, hi, hf⟩
      exact ⟨(hlive d).mpr hres, (hkind hres hi).mpr hf⟩
  records d hd := by
    obtain ⟨inode, b, s, hi, _, hok, hb, hs, hblock, _⟩ := hI.dirBlock hd
    obtain ⟨inode', hi', _, _, hfirst⟩ := hinodes d inode hd.1 hi
    obtain ⟨s', hs', hrec⟩ := hslots b s (hok.block hok.count_pos hb).1 hs
    rw [records_of_block hblock, ← hrec]
    exact records_of_block (block_eq hi' ((hfirst hok).trans hb) hs')

/-- **The table** stays well-formed when inodes only grow. -/
theorem TableOk.congr (h : I.TableOk) (hI : I.Directories) (hdt : J.dt = I.dt)
    (hnamed : ∀ i, I.store.tree.Named i → J.store.tree.Named i)
    (hgrows : ∀ i inode, Taken I.sb.reservedInodesMask i → J.inodes i = some inode →
      ∃ inode', I.inodes i = some inode' ∧ inode'.blocksCount ≤ inode.blocksCount) :
    J.TableOk where
  fdLength := by rw [hdt]; exact h.fdLength
  inodeLength := by rw [hdt]; exact h.inodeLength
  positionLength := by rw [hdt]; exact h.positionLength
  unused := by rw [hdt]; exact h.unused
  used := by rw [hdt]; exact fun hent => hnamed _ (h.used hent)
  position_le {fd i p inode} hent hget := by
    rw [hdt] at hent
    obtain ⟨inode', hget', hle⟩ := hgrows i inode (hI.tree.live_of_named (h.used hent)) hget
    have := h.position_le hent hget'
    omega
  distinct := by rw [hdt]; exact h.distinct

namespace Ok

/-- The root directory is reserved. -/
theorem root_reserved (h : I.Ok) : Taken I.sb.reservedInodesMask 0 :=
  h.directories.tree.live_of_dir h.directories.tree.root_dir

/-- The root is a directory. -/
theorem root_dir (h : I.Ok) : I.store.IsDir rootInodeId := h.directories.tree.root_dir

/-- A change that keeps the layout and the tree keeps the invariant. -/
theorem of_sameTree (h : I.Ok) (hJ : J.Layout) (hsame : SameTree I J) (hdt : J.dt = I.dt) :
    J.Ok :=
  ⟨hJ, hsame.directories h.directories,
    h.table.congr h.directories hdt (fun _ => hsame.named) fun i inode hi hget => by
      obtain ⟨inode₀, hget₀, _⟩ := h.layout.inode hi
      obtain ⟨inode', hget', hle⟩ := hsame.grows i inode₀ hi hget₀
      rw [hget] at hget'
      cases hget'
      exact ⟨inode₀, hget₀, hle⟩⟩

/-- Nothing that an inode of the image refers to changes. -/
theorem scratch (h : I.Ok) (hgeometry : J.sb.fsInfo = I.sb.fsInfo)
    (hinodesMask : J.sb.reservedInodesMask = I.sb.reservedInodesMask)
    (hblocksLength : J.sb.reservedBlocksMask.length = 128)
    (hmask : ∀ b, Taken I.sb.reservedBlocksMask b → Taken J.sb.reservedBlocksMask b)
    (hinodes : ∀ i, Taken I.sb.reservedInodesMask i → J.inodes i = I.inodes i)
    (hslots : ∀ b, Taken I.sb.reservedBlocksMask b → J.slots b = I.slots b)
    (hdt : J.dt = I.dt) : J.Ok := by
  refine h.of_sameTree (h.layout.mono h.root_reserved hgeometry hinodesMask hblocksLength hmask
    hinodes hslots) (SameTree.of h.layout (fun i => by rw [hinodesMask]) ?_ ?_) hdt
  · exact fun i inode hi hget =>
      ⟨inode, (hinodes i hi).trans hget, Nat.le_refl _, rfl, fun _ => rfl⟩
  · exact fun b s hb hs => ⟨s, (hslots b hb).trans hs, rfl⟩

/-- A block that keeps its records. -/
theorem sameTree_setSlot (h : I.Ok) {b : Nat} {s s' : Slot} (hs : I.slots b = some s)
    (hrec : s'.records = s.records) : SameTree I (I.setSlot b s') := by
  refine SameTree.of h.layout (fun _ => Iff.rfl)
    (fun i inode _ hget => ⟨inode, hget, Nat.le_refl _, rfl, fun _ => rfl⟩) fun x sx _ hx => ?_
  by_cases hxb : x = b
  · subst hxb
    rw [hs] at hx
    cases hx
    exact ⟨s', setSlot_slots_self I x s', hrec⟩
  · exact ⟨sx, (setSlot_slots_ne I s' hxb).trans hx, rfl⟩

/-- **A block is rewritten by its owner**, with the records it had. -/
theorem setSlot (h : I.Ok) {i k b : Nat} {inode : Inode} {s s' : Slot}
    (hi : Taken I.sb.reservedInodesMask i) (hget : I.inodes i = some inode)
    (hk : k < inode.blocksCount) (hb : inode.blockIds[k]? = some b) (hs : I.slots b = some s)
    (hs' : s'.Holds i k b inode.isFile) (hrec : s'.records = s.records)
    (hsize : i = 0 → k = 0 → s'.info.dataSize = 0) : (I.setSlot b s').Ok :=
  h.of_sameTree (h.layout.setSlot h.root_reserved hi hget hk hb hs' hsize)
    (h.sameTree_setSlot hs hrec) rfl

/-- The inodes after one block list grew: all keep their kind and first block. -/
theorem grown_inodes (h : I.Ok) {i b : Nat} {inode : Inode}
    (hi : Taken I.sb.reservedInodesMask i) (hget : I.inodes i = some inode) (j : Nat)
    (inode₁ : Inode) (hj : I.inodes j = some inode₁) :
    ∃ inode₂, ((I.takeBlock b).setInode (grown inode b)).inodes j = some inode₂ ∧
      inode₁.blocksCount ≤ inode₂.blocksCount ∧ inode₂.isFile = inode₁.isFile ∧
      (I.InodeOk j inode₁ → inode₂.blockIds[0]? = inode₁.blockIds[0]?) := by
  have hok := h.layout.inodeOk hi hget
  have hid : (grown inode b).id = i := hok.id_eq
  by_cases hji : j = i
  · subst hji
    rw [hget] at hj
    cases hj
    refine ⟨grown inode b, hid ▸ setInode_inodes_self _ _, Nat.le_succ _, rfl, fun _ => ?_⟩
    have := hok.count_pos
    exact List.getElem?_set_ne (by omega)
  · exact ⟨inode₁, (setInode_inodes_ne _ _ (by rwa [hid])).trans hj, Nat.le_refl _, rfl,
      fun _ => rfl⟩

/-- A list that grows changes no directory. -/
theorem sameTree_grown (h : I.Ok) {i b : Nat} {inode : Inode}
    (hi : Taken I.sb.reservedInodesMask i) (hget : I.inodes i = some inode) :
    SameTree I ((I.takeBlock b).setInode (grown inode b)) :=
  SameTree.of h.layout (fun _ => Iff.rfl) (fun j inode₁ _ => h.grown_inodes hi hget j inode₁)
    fun _ s _ hs => ⟨s, hs, rfl⟩

/-- Neither does the block it grew by. -/
theorem sameTree_grow (h : I.Ok) {i b : Nat} {inode : Inode}
    (hi : Taken I.sb.reservedInodesMask i) (hget : I.inodes i = some inode)
    (hb : firstFree I.sb.reservedBlocksMask = some b) (s : Slot) :
    SameTree I (((I.takeBlock b).setInode (grown inode b)).setSlot b s) := by
  obtain ⟨_, hfree, _⟩ := firstFree_eq_some_iff.mp hb
  refine SameTree.of h.layout (fun _ => Iff.rfl) (fun j inode₁ _ => h.grown_inodes hi hget j inode₁)
    fun x t hx ht => ⟨t, ?_, rfl⟩
  have hne : x ≠ b := fun heq => hfree (heq ▸ hx)
  exact (setSlot_slots_ne _ s hne).trans ht

/-- **A block list grows** by a block that was free. -/
theorem grow (h : I.Ok) {i b : Nat} {inode : Inode} {s : Slot}
    (hi : Taken I.sb.reservedInodesMask i) (hget : I.inodes i = some inode)
    (hcount : inode.blocksCount ≠ 8) (hb : firstFree I.sb.reservedBlocksMask = some b)
    (hs : s.IsData) (hblock : s.info.blockId = b) (hinode : s.info.inodeId = i) :
    (((I.takeBlock b).setInode (grown inode b)).setSlot b s).Ok :=
  h.of_sameTree (h.layout.grow h.root_reserved hi hget hcount hb hs hblock hinode)
    (h.sameTree_grow hi hget hb s) rfl

/-! ### Creation -/

section Create

variable {isFile : Bool} {p n b : Nat}

/-- Creating an inode leaves the reserved inodes and blocks as they are. -/
theorem alloc_frame (isFile : Bool) (p : Nat) (hn : firstFree I.sb.reservedInodesMask = some n)
    (hb : firstFree I.sb.reservedBlocksMask = some b) :
    (∀ i, Taken I.sb.reservedInodesMask i → (I.alloc isFile p n b).inodes i = I.inodes i) ∧
      ∀ x, Taken I.sb.reservedBlocksMask x → (I.alloc isFile p n b).slots x = I.slots x := by
  obtain ⟨_, hnfree, _⟩ := firstFree_eq_some_iff.mp hn
  obtain ⟨_, hbfree, _⟩ := firstFree_eq_some_iff.mp hb
  refine ⟨fun i hi => ?_, fun x hx => ?_⟩
  · have hne : i ≠ n := fun heq => hnfree (heq ▸ hi)
    exact setInode_inodes_ne _ (freshInode isFile n b) hne
  · have hne : x ≠ b := fun heq => hbfree (heq ▸ hx)
    exact setSlot_slots_ne I _ hne

/-- The records of the directories after an inode was created. -/
theorem alloc_tree (h : I.Ok) (isFile : Bool) (p : Nat)
    (hn : firstFree I.sb.reservedInodesMask = some n)
    (hb : firstFree I.sb.reservedBlocksMask = some b) :
    (∀ d, (I.alloc isFile p n b).store.IsDir d ↔
        (d = n ∧ isFile = false) ∨ I.store.IsDir d) ∧
      (∀ d, I.store.IsDir d → (I.alloc isFile p n b).store.records d = I.store.records d) ∧
      (isFile = false → (I.alloc isFile p n b).store.parentOf n = p ∧
        (I.alloc isFile p n b).store.namedRecords n = []) := by
  obtain ⟨hnlt, hnfree, _⟩ := firstFree_eq_some_iff.mp hn
  obtain ⟨hblt, hbfree, _⟩ := firstFree_eq_some_iff.mp hb
  have hnew : (I.alloc isFile p n b).inodes n = some (freshInode isFile n b) :=
    setInode_inodes_self _ (freshInode isFile n b)
  have hold : ∀ {i}, i ≠ n → (I.alloc isFile p n b).inodes i = I.inodes i :=
    fun hi => setInode_inodes_ne _ (freshInode isFile n b) hi
  have hslot : (I.alloc isFile p n b).slots b = some (I.freshSlot isFile p n b) :=
    setSlot_slots_self I b _
  have hne : ∀ {i}, I.store.IsDir i → i ≠ n := fun hi heq => hnfree (heq ▸ hi.1)
  refine ⟨fun d => ?_, fun d hd => ?_, fun hdir => ?_⟩
  · -- the new inode is a directory if it is not a file; the others are what they were
    by_cases hd : d = n
    · subst hd
      constructor
      · rintro ⟨_, inode, hi, hf⟩
        rw [store_inodes, hnew] at hi
        cases hi
        exact Or.inl ⟨rfl, hf⟩
      · rintro (⟨_, hf⟩ | hd)
        · exact ⟨(taken_set hnlt).mpr (Or.inl rfl), _, hnew, hf⟩
        · exact absurd rfl (hne hd)
    · have hres : (I.alloc isFile p n b).store.InodeReserved d ↔ I.store.InodeReserved d := by
        refine (taken_set hnlt).trans ⟨fun h' => h'.resolve_left hd, Or.inr⟩
      have hkind : (I.alloc isFile p n b).store.HasKind false d ↔ I.store.HasKind false d := by
        unfold Store.HasKind
        rw [store_inodes, store_inodes, hold hd]
      unfold Store.IsDir
      rw [hres, hkind]
      exact ⟨Or.inr, fun h' => h'.resolve_left fun h'' => hd h''.1⟩
  · -- the block of an old directory is not the one that was free
    obtain ⟨inode, x, s, hi, _, hok, hx, hs, hblock, _⟩ := h.layout.dirBlock hd
    have hxb : x ≠ b := fun heq => hbfree (heq ▸ (hok.block hok.count_pos hx).1)
    rw [records_of_block hblock]
    exact records_of_block (block_eq ((hold (hne hd)).trans hi) hx
      ((setSlot_slots_ne I _ hxb).trans hs))
  · have hrec : (I.alloc isFile p n b).store.records n =
        [⟨n, nameField defaultFsInfo dotName⟩, ⟨p, nameField defaultFsInfo twoDotsName⟩] := by
      subst hdir
      exact records_of_block (block_eq (k := 0) hnew rfl hslot)
    simp only [Store.parentOf, Store.namedRecords, hrec]
    exact ⟨rfl, rfl⟩

/-- A new inode is named by nobody. -/
theorem alloc_not_named (h : I.Ok) (hn : firstFree I.sb.reservedInodesMask = some n)
    (hb : firstFree I.sb.reservedBlocksMask = some b) :
    ¬ (I.alloc isFile p n b).store.tree.Named n := by
  obtain ⟨hdir, hrec, hnew⟩ := h.alloc_tree isFile p hn hb
  obtain ⟨_, hnfree, _⟩ := firstFree_eq_some_iff.mp hn
  rintro ⟨d, hd, e, he, heq⟩
  change e ∈ ((I.alloc isFile p n b).store.namedRecords d).map _ at he
  rcases (hdir d).mp hd with ⟨rfl, hfile⟩ | hd
  · rw [(hnew hfile).2] at he
    simp at he
  · rw [Store.namedRecords, hrec d hd] at he
    exact hnfree (heq ▸ h.directories.tree.child_live hd he)

/-- Creating an inode keeps every name. -/
theorem alloc_named (h : I.Ok) (hn : firstFree I.sb.reservedInodesMask = some n)
    (hb : firstFree I.sb.reservedBlocksMask = some b) {i : Nat} (hi : I.store.tree.Named i) :
    (I.alloc isFile p n b).store.tree.Named i := by
  obtain ⟨hdir, hrec, _⟩ := h.alloc_tree isFile p hn hb
  obtain ⟨d, hd, e, he, heq⟩ := hi
  refine ⟨d, (hdir d).mpr (Or.inr hd), e, ?_, heq⟩
  show e ∈ ((I.alloc isFile p n b).store.namedRecords d).map _
  rw [Store.namedRecords, hrec d hd]
  exact he

/-- **A new inode** with one block. -/
theorem alloc (h : I.Ok) (hp : I.store.IsDir p)
    (hn : firstFree I.sb.reservedInodesMask = some n)
    (hb : firstFree I.sb.reservedBlocksMask = some b) : (I.alloc isFile p n b).Ok := by
  obtain ⟨hdir, hrec, hnew⟩ := h.alloc_tree isFile p hn hb
  obtain ⟨hnlt, hnfree, _⟩ := firstFree_eq_some_iff.mp hn
  have hnamed : ∀ {d}, I.store.IsDir d →
      (I.alloc isFile p n b).store.namedRecords d = I.store.namedRecords d :=
    fun hd => by rw [Store.namedRecords, hrec _ hd, Store.namedRecords]
  refine ⟨h.layout.alloc h.root_reserved hn hb, ⟨?_, ?_⟩,
    h.table.congr h.directories rfl (fun i => h.alloc_named hn hb) fun i inode hi hget =>
      ⟨inode, ((alloc_frame isFile p hn hb).1 i hi).symm.trans hget, Nat.le_refl _⟩⟩
  · refine h.directories.tree.add (isFile = false)
      (fun i (hi : Taken _ i) (heq : i = n) => hnfree (heq ▸ hi)) hp
      (h.layout.packed.lt_firstFree hn hp.1)
      (fun i => taken_set hnlt) hdir (fun d hd => ?_) (fun d hd => ?_) (fun hf => ?_)
    · show (I.alloc isFile p n b).store.parentOf d = I.store.parentOf d
      simp only [Store.parentOf, hrec d hd]
    · show ((I.alloc isFile p n b).store.namedRecords d).map _ = _
      rw [hnamed hd]
      rfl
    · refine ⟨(hnew hf).1, ?_⟩
      show ((I.alloc isFile p n b).store.namedRecords n).map _ = _
      rw [(hnew hf).2]
      rfl
  · intro d hd r hr
    rcases (hdir d).mp hd with ⟨rfl, hf⟩ | hd
    · rw [(hnew hf).2] at hr
      simp at hr
    · rw [hnamed hd] at hr
      exact h.directories.names hd r hr

/-- The images on the way to a new inode keep the invariant, whatever its parent. -/
theorem allocTrace (h : I.Ok) (hp : I.store.IsDir p)
    (hn : firstFree I.sb.reservedInodesMask = some n)
    (hb : firstFree I.sb.reservedBlocksMask = some b) :
    ∀ J ∈ I.allocTrace isFile p n b, J.Ok := by
  obtain ⟨_, hnfree, _⟩ := firstFree_eq_some_iff.mp hn
  obtain ⟨_, hbfree, _⟩ := firstFree_eq_some_iff.mp hb
  have hslot : ∀ x, Taken I.sb.reservedBlocksMask x →
      (I.setSlot b (I.freshSlot isFile p n b)).slots x = I.slots x :=
    fun x hx => setSlot_slots_ne I _ fun heq => hbfree (heq ▸ hx)
  intro J hJ
  simp only [Image.allocTrace, List.mem_cons, List.not_mem_nil, or_false] at hJ
  rcases hJ with rfl | rfl | rfl
  · exact h.scratch rfl rfl h.layout.blocksLength (fun _ => id) (fun _ _ => rfl) hslot rfl
  · have hne : ∀ i, Taken I.sb.reservedInodesMask i → i ≠ n := fun i hi heq => hnfree (heq ▸ hi)
    exact h.scratch rfl rfl h.layout.blocksLength (fun _ => id)
      (fun i hi => setInode_inodes_ne _ (freshInode isFile n b) (hne i hi)) hslot rfl
  · exact h.alloc hp hn hb

end Create

/-! ### A new record -/

section Link

variable {p n b : Nat} {s t : Slot} {r : BlockRecord}

/-- A directory block with room takes a record behind the others. -/
theorem isRecords_add (hrec : s.IsRecords p) (hroom : s.info.recordsCount ≠ 6)
    (r : BlockRecord) :
    (⟨{ s.info with recordsCount := s.info.recordsCount + 1 },
        .records (s.records ++ [r])⟩ : Slot).IsRecords p ∧
      (⟨{ s.info with recordsCount := s.info.recordsCount + 1 },
        .records (s.records ++ [r])⟩ : Slot).records = s.records ++ [r] := by
  obtain ⟨parent, named, heq, hcount, hle⟩ := hrec.records_eq
  constructor
  · refine ⟨parent, named ++ [r], by simp [heq], ?_, ?_⟩
    · simp only [List.length_append, List.length_singleton]
      omega
    · simp only [List.length_append, List.length_singleton]
      omega
  · apply Slot.records_of_le
    rw [heq]
    simp only [List.length_append, List.length_cons, List.length_nil]
    omega

/-- The records of `p` grow by one, every other directory keeps its own. -/
theorem records_setSlot (h : I.Ok) (hp : I.store.IsDir p) (hblock : I.block p 0 = some (b, s))
    (ht : t.records = s.records ++ [r]) :
    (I.setSlot b t).store.records p = I.store.records p ++ [r] ∧
      ∀ d, I.store.IsDir d → d ≠ p →
        (I.setSlot b t).store.records d = I.store.records d := by
  obtain ⟨inode, b', s', hget, _, _, hb, hs, hblock', hh, _⟩ := h.layout.dirBlock hp
  rw [hblock] at hblock'
  cases hblock'
  constructor
  · rw [records_of_block hblock, ← ht]
    exact records_of_block (block_eq (I := I.setSlot b t) hget hb (setSlot_slots_self I b t))
  · intro d hd hdp
    obtain ⟨inode₂, b₂, s₂, hget₂, _, _, hb₂, hs₂, hblock₂, hh₂, _⟩ := h.layout.dirBlock hd
    have hbb : b₂ ≠ b := by
      rintro rfl
      rw [hs] at hs₂
      cases hs₂
      exact hdp (hh₂.inodeId_eq.symm.trans hh.inodeId_eq)
    rw [records_of_block hblock₂]
    exact records_of_block (block_eq (I := I.setSlot b t) hget₂ hb₂
      ((setSlot_slots_ne I t hbb).trans hs₂))

section Records

variable (h : I.Ok) (hp : I.store.IsDir p)
  (hself : (I.setSlot b t).store.records p = I.store.records p ++ [r])
  (hother : ∀ d, I.store.IsDir d → d ≠ p →
    (I.setSlot b t).store.records d = I.store.records d)

include h hp hself

/-- The grown directory has one more name. -/
theorem namedRecords_grown :
    (I.setSlot b t).store.namedRecords p = I.store.namedRecords p ++ [r] := by
  rw [Store.namedRecords, hself, Store.namedRecords, List.drop_append_of_le_length]
  rw [(h.layout.records_eq hp).1]
  simp only [List.length_cons]
  omega

include hother

/-- No directory gets another parent. -/
theorem parentOf_grown {d : Nat} (hd : I.store.IsDir d) :
    (I.setSlot b t).store.parentOf d = I.store.parentOf d := by
  by_cases hdp : d = p
  · subst hdp
    simp only [Store.parentOf, hself]
    rw [(h.layout.records_eq hp).1]
    rfl
  · simp only [Store.parentOf, hother d hd hdp]

/-- What names reached, they reach. -/
theorem named_grown {i : Nat} (hi : I.store.tree.Named i) :
    (I.setSlot b t).store.tree.Named i := by
  obtain ⟨d, hd, e, he, heq⟩ := hi
  refine ⟨d, hd, e, ?_, heq⟩
  change e ∈ ((I.setSlot b t).store.namedRecords d).map _
  change e ∈ (I.store.namedRecords d).map _ at he
  by_cases hdp : d = p
  · subst hdp
    rw [namedRecords_grown h hp hself, List.map_append]
    exact List.mem_append_left _ he
  · rwa [Store.namedRecords, hother d hd hdp, ← Store.namedRecords]

/-- The directories stay a tree. -/
theorem directories_grown (hlinked : I.store.tree.Linked rootInodeId p) (hr : r.inodeId = n)
    (hwell : r.WellNamed) (hn : Taken I.sb.reservedInodesMask n) (hroot : n ≠ rootInodeId)
    (hfresh : ¬ I.store.tree.Named n) (hparent : I.store.IsDir n → I.store.parentOf n = p) :
    (I.setSlot b t).Directories := by
  have hnamed := namedRecords_grown h hp hself
  constructor
  · refine h.directories.tree.link r.path hp hlinked hn hroot hfresh hparent (fun _ => Iff.rfl)
      (fun _ => Iff.rfl) (fun d hd => parentOf_grown h hp hself hother hd) (fun d hd hdp => ?_) ?_
    · show ((I.setSlot b t).store.namedRecords d).map _ = (I.store.namedRecords d).map _
      rw [Store.namedRecords, hother d hd hdp, Store.namedRecords]
    · show ((I.setSlot b t).store.namedRecords p).map _ = (I.store.namedRecords p).map _ ++ _
      rw [hnamed, List.map_append, List.map_singleton, hr]
  · intro d hd x hx
    by_cases hdp : d = p
    · subst hdp
      rw [hnamed, List.mem_append, List.mem_singleton] at hx
      rcases hx with hx | rfl
      · exact h.directories.names hd x hx
      · exact hwell
    · rw [Store.namedRecords, hother d hd hdp] at hx
      exact h.directories.names hd x hx

end Records

/-- **A new record** in a directory that names reach, for a node that nothing names. -/
theorem link (h : I.Ok) (hp : I.store.IsDir p)
    (hlinked : I.store.tree.Linked rootInodeId p) (hblock : I.block p 0 = some (b, s))
    (hroom : s.info.recordsCount ≠ 6) (hr : r.inodeId = n) (hwell : r.WellNamed)
    (hn : Taken I.sb.reservedInodesMask n) (hroot : n ≠ rootInodeId)
    (hfresh : ¬ I.store.tree.Named n) (hparent : I.store.IsDir n → I.store.parentOf n = p) :
    (I.link p r).Ok ∧ (I.link p r).store.tree.Named n ∧
      (∀ i, I.store.tree.Named i → (I.link p r).store.tree.Named i) ∧
      (I.link p r).store.records p = I.store.records p ++ [r] := by
  obtain ⟨inode, b', s', hget, hkind, hok, hb, hs, hblock', hh, hrec⟩ := h.layout.dirBlock hp
  rw [hblock] at hblock'
  cases hblock'
  obtain ⟨hnew, hnewrec⟩ := isRecords_add hrec hroom r
  simp only [Image.link, hblock]
  generalize hslot : (⟨{ s.info with recordsCount := s.info.recordsCount + 1 },
      .records (s.records ++ [r])⟩ : Slot) = t at hnew hnewrec ⊢
  have hholds : t.Holds p 0 b inode.isFile := by
    rw [hkind]
    refine ⟨?_, ?_, by rw [if_pos ⟨rfl, rfl⟩]; exact hnew⟩
    · subst hslot
      exact hh.blockId_eq
    · subst hslot
      exact hh.inodeId_eq
  have hsize : p = 0 → (0 : Nat) = 0 → t.info.dataSize = 0 := by
    rintro rfl _
    obtain ⟨s₀, hblock₀, hzero⟩ := h.layout.rootBlock
    rw [hblock] at hblock₀
    cases hblock₀
    subst hslot
    exact hzero
  obtain ⟨hself, hother⟩ := h.records_setSlot hp hblock hnewrec
  have hkeep : ∀ i, I.store.tree.Named i → (I.setSlot b t).store.tree.Named i := fun _ hi =>
    named_grown h hp hself hother hi
  have hdirectories :=
    directories_grown h hp hself hother hlinked hr hwell hn hroot hfresh hparent
  refine ⟨⟨h.layout.setSlot h.root_reserved hp.1 hget hok.count_pos hb hholds hsize, hdirectories,
    h.table.congr h.directories rfl hkeep fun _ inode _ hget => ⟨inode, hget, Nat.le_refl _⟩⟩,
    ⟨p, hp, (r.path, n), ?_, rfl⟩, hkeep, hself⟩
  show (r.path, n) ∈ ((I.setSlot b t).store.namedRecords p).map _
  rw [namedRecords_grown h hp hself, List.map_append, List.map_singleton, hr]
  simp

end Link

/-! ### The descriptor table -/

section Table

variable {fd : Nat}

/-- A change of the descriptor table alone. -/
theorem setTable (h : I.Ok) {dt : DescriptorsTable} (hdt : (I.setTable dt).TableOk) :
    (I.setTable dt).Ok := by
  have hlayout : (I.setTable dt).Layout :=
    h.layout.mono h.root_reserved rfl rfl h.layout.blocksLength (fun _ => id) (fun _ _ => rfl)
      (fun _ _ => rfl)
  have hsame : SameTree I (I.setTable dt) :=
    ⟨fun _ inode _ hget => ⟨inode, hget, Nat.le_refl _⟩, fun _ => Iff.rfl, fun _ => Iff.rfl,
      fun _ _ => rfl⟩
  exact ⟨hlayout, hsame.directories h.directories, hdt⟩

/-- **A position is set.** -/
theorem setPosition (h : I.Ok) {pos : Nat} (hpos : ∀ i inode, I.dt.fdToInode[fd]? = some i →
    I.inodes i = some inode → pos ≤ 968 + 121 * inode.blocksCount) :
    (I.setPosition fd pos).Ok := by
  -- the entries are those of the old table, up to the position of `fd`
  have hold : ∀ {fd' i p}, (I.setPosition fd pos).dt.Entry fd' i p → ∃ p₀, I.dt.Entry fd' i p₀ := by
    intro fd' i p hent
    rcases entry_setPosition.mp hent with ⟨_, _, hent⟩ | ⟨_, hent⟩
    · exact hent
    · exact ⟨p, hent⟩
  refine h.setTable
    { fdLength := h.table.fdLength, inodeLength := h.table.inodeLength,
      positionLength := (List.length_set ..).trans h.table.positionLength,
      unused := h.table.unused, used := fun hent => ?_, position_le := ?_, distinct := ?_ }
  · obtain ⟨p₀, hent⟩ := hold hent
    exact h.table.used hent
  · intro fd' i p inode hent hget
    rcases entry_setPosition.mp hent with ⟨rfl, rfl, p₀, hent⟩ | ⟨_, hent⟩
    · exact hpos i inode hent.refers hget
    · exact h.table.position_le hent hget
  · intro fd₁ fd₂ i p p' h₁ h₂
    obtain ⟨p₁, h₁⟩ := hold h₁
    obtain ⟨p₂, h₂⟩ := hold h₂
    exact h.table.distinct h₁ h₂

/-- **A descriptor is released.** -/
theorem freeDescriptor (h : I.Ok) : (I.setTable (freeDescriptor I.dt fd)).Ok := by
  have hold : ∀ {fd' i p}, (MiniExt.freeDescriptor I.dt fd).Entry fd' i p → I.dt.Entry fd' i p :=
    fun hent => (entry_freeDescriptor.mp hent).2
  have hlengths : (MiniExt.freeDescriptor I.dt fd).reservedFd.length = 16 ∧
      (MiniExt.freeDescriptor I.dt fd).fdToInode.length = 16 ∧
        (MiniExt.freeDescriptor I.dt fd).fdToPosition.length = 16 := by
    unfold MiniExt.freeDescriptor
    split
    · simpa only [List.length_set] using
        ⟨h.table.fdLength, h.table.inodeLength, h.table.positionLength⟩
    · exact ⟨h.table.fdLength, h.table.inodeLength, h.table.positionLength⟩
  refine h.setTable
    { fdLength := hlengths.1, inodeLength := hlengths.2.1, positionLength := hlengths.2.2,
      unused := ?_, used := fun hent => h.table.used (hold hent),
      position_le := fun hent hget => h.table.position_le (hold hent) hget,
      distinct := fun h₁ h₂ => h.table.distinct (hold h₁) (hold h₂) }
  intro fd' hres
  simp only [setTable_dt, MiniExt.freeDescriptor] at hres ⊢
  split at hres
  · rename_i hfd
    rw [if_pos hfd]
    by_cases heq : fd' = fd
    · subst heq
      have hlt := (List.getElem?_eq_some_iff.mp hfd).1
      rw [h.table.fdLength, ← h.table.inodeLength] at hlt
      exact List.getElem?_set_self hlt
    · rw [List.getElem?_set_ne (Ne.symm heq)] at hres ⊢
      exact h.table.unused hres
  · rename_i hfd
    rw [if_neg hfd]
    exact h.table.unused hres

/-- **A descriptor is occupied** for an inode that names reach.  The root directory is never
    opened: its number is what free slots hold. -/
theorem reserveDescriptor (h : I.Ok) {i : Nat} {dt : DescriptorsTable}
    (hi : I.store.tree.Linked rootInodeId i)
    (hdt : MiniExt.reserveDescriptor I.dt i = some (fd, dt)) : (I.setTable dt).Ok := by
  obtain ⟨hnotin, hfree, heq⟩ := reserveDescriptor_eq hdt
  have hnamed : I.store.tree.Named i := by
    refine hi.resolve_left ?_
    rintro rfl
    -- the free slot holds inode 0, so the first scan finds it
    exact hnotin (List.mem_of_getElem? (h.table.unused hfree))
  refine h.setTable
    { fdLength := by rw [setTable_dt, heq]; simpa using h.table.fdLength,
      inodeLength := by rw [setTable_dt, heq]; simpa using h.table.inodeLength,
      positionLength := by rw [setTable_dt, heq]; simpa using h.table.positionLength,
      unused := ?_, used := ?_, position_le := ?_, distinct := ?_ }
  · intro fd' hres
    simp only [setTable_dt, heq] at hres ⊢
    by_cases hne : fd' = fd
    · subst hne
      rw [List.getElem?_set_self (List.getElem?_eq_some_iff.mp hfree).1] at hres
      cases hres
    · rw [List.getElem?_set_ne (Ne.symm hne)] at hres ⊢
      exact h.table.unused hres
  · intro fd' j p hent
    rcases entry_reserveDescriptor hdt hent with ⟨_, rfl, _⟩ | ⟨_, hent⟩
    · exact hnamed
    · exact h.table.used hent
  · intro fd' j p inode hent hget
    rcases entry_reserveDescriptor hdt hent with ⟨_, _, rfl⟩ | ⟨_, hent⟩
    · exact Nat.zero_le _
    · exact h.table.position_le hent hget
  · intro fd₁ fd₂ j p p' h₁ h₂
    rcases entry_reserveDescriptor hdt h₁ with ⟨rfl, rfl, _⟩ | ⟨_, h₁⟩
    · rcases entry_reserveDescriptor hdt h₂ with ⟨rfl, _, _⟩ | ⟨_, h₂⟩
      · rfl
      · exact absurd (List.mem_of_getElem? h₂.refers) hnotin
    · rcases entry_reserveDescriptor hdt h₂ with ⟨_, rfl, _⟩ | ⟨_, h₂⟩
      · exact absurd (List.mem_of_getElem? h₁.refers) hnotin
      · exact h.table.distinct h₁ h₂

end Table

end Ok

end Image

end MiniExt
