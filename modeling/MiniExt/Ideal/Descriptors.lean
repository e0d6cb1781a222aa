import MiniExt.Ideal.Tree

namespace MiniExt

open Lib

/-!
# Ideal — descriptors

The entries of the descriptor table are the open descriptors, each with the file its inode is and
the position in it.  Opening, closing and seeking change one entry each.

* `Tidy.setTable`, `Models.setTable` — other entries, over the same nodes;
* `Models.isNone_opened`, `Models.unopened_iff` — what `open` asks the table;
* `Models.descriptor_cases` — what `read`, `write` and `lseek` ask it;
* `Models.opens`, `Models.closes`, `Models.seeks` — the calls.
-/

namespace Image

variable {I : Image} {fs : IdealFs} {dt : DescriptorsTable} {p : List (List UInt8)}
  {fd i p₀ pos : Nat}

/-! ### Other tables -/

/-- A new table keeps an image tidy, when its entries are for files and inside them. -/
theorem Tidy.setTable (ht : I.Tidy) (hok : (I.setTable dt).Ok)
    (hent : ∀ {fd i pos}, dt.Entry fd i pos →
      ¬ I.store.IsDir i ∧ pos ≤ (content 121 (I.store.chunks i)).length) :
    (I.setTable dt).Tidy where
  ok := hok
  distinct := ht.distinct
  apart := ht.apart.setTable fun h => (hent h).1
  snug := ht.snug
  inside h := (hent h).2

/-- A new table makes the image model other open descriptors. -/
theorem Models.setTable (hm : I.Models fs) {opened : Nat → Option (List (List UInt8) × Nat)}
    (hent : ∀ fd p pos, opened fd = some (p, pos) ↔
      ∃ i, dt.Entry fd i pos ∧ I.store.Locates p i) :
    (I.setTable dt).Models { fs with opened := opened } :=
  ⟨hm.node, hent, hm.freeNodes, hm.freeBlocks⟩

/-- One entry more or another one, for the inode under `p`. -/
theorem Models.pointed (hm : I.Models fs) (h : I.Ok) (hp : I.store.Locates p i)
    (hself : dt.Entry fd i pos)
    (hothers : ∀ {fd' j q}, fd' ≠ fd → (dt.Entry fd' j q ↔ I.dt.Entry fd' j q)) :
    (I.setTable dt).Models (fs.point fd p pos) := by
  apply hm.setTable
  intro fd' p' pos'
  by_cases hfd : fd' = fd
  · subst hfd
    rw [Function.update_self, Option.some.injEq, Prod.mk.injEq]
    constructor
    · rintro ⟨rfl, rfl⟩
      exact ⟨i, hself, hp⟩
    · rintro ⟨j, hent, hp'⟩
      obtain ⟨rfl, rfl⟩ := hself.unique hent
      exact ⟨h.locates_inj hp hp', rfl⟩
  · rw [Function.update_of_ne hfd, hm.opened]
    exact exists_congr fun j => and_congr_left fun _ => (hothers hfd).symm

/-! ### What the table is asked -/

/-- A reserved descriptor has an entry. -/
theorem Ok.exists_entry (h : I.Ok) (hres : I.dt.reservedFd[fd]? = some true) :
    ∃ i pos, I.dt.Entry fd i pos := by
  have hlt := (List.getElem?_eq_some_iff.mp hres).1
  rw [h.table.fdLength] at hlt
  exact ⟨_, _, hres, List.getElem?_eq_getElem (h.table.inodeLength.symm ▸ hlt),
    List.getElem?_eq_getElem (h.table.positionLength.symm ▸ hlt)⟩

/-- The descriptor of an entry is open. -/
theorem Models.exists_opened (hm : I.Models fs) (h : I.Ok) (hent : I.dt.Entry fd i pos) :
    ∃ p, I.store.Locates p i ∧ fs.opened fd = some (p, pos) := by
  obtain ⟨p, hp⟩ := h.exists_locates (h.table.used hent)
  exact ⟨p, hp, (hm.opened fd p pos).mpr ⟨i, hent, hp⟩⟩

/-- A slot of the table is free exactly when the descriptor is not open. -/
theorem Models.isNone_opened (hm : I.Models fs) (h : I.Ok) :
    (fs.opened fd).isNone = true ↔ ¬ Taken I.dt.reservedFd fd := by
  rw [Option.isNone_iff_eq_none, Option.eq_none_iff_forall_not_mem]
  constructor
  · intro hnone hres
    obtain ⟨i, pos, hent⟩ := h.exists_entry hres
    obtain ⟨p, _, hopened⟩ := hm.exists_opened h hent
    exact hnone (p, pos) hopened
  · rintro hfree ⟨p, pos⟩ hopened
    obtain ⟨i, hent, _⟩ := (hm.opened fd p pos).mp hopened
    exact hfree hent.reserved

/-- The table holds an inode other than the root exactly when its file is open. -/
theorem Models.unopened_iff (hm : I.Models fs) (ht : I.Tidy) (hp : I.store.Locates p i)
    (hroot : i ≠ rootInodeId) : fs.Unopened defaultLimits p ↔ i ∉ I.dt.fdToInode := by
  constructor
  · intro hun hmem
    obtain ⟨fd, hrefers⟩ := List.mem_iff_getElem?.mp hmem
    have hlt := (List.getElem?_eq_some_iff.mp hrefers).1
    rw [ht.ok.table.inodeLength] at hlt
    rcases hres : I.dt.reservedFd[fd]? with _ | reserved
    · rw [List.getElem?_eq_none_iff, ht.ok.table.fdLength] at hres
      omega
    cases reserved with
    | false =>
      -- a free slot holds the number of the root
      rw [ht.ok.table.unused hres, Option.some.injEq] at hrefers
      exact hroot hrefers.symm
    | true =>
      obtain ⟨j, pos, hent⟩ := ht.ok.exists_entry hres
      obtain rfl : j = i := Option.some.inj (hent.refers.symm.trans hrefers)
      refine hun fd hlt ?_
      rw [(hm.opened fd p pos).mpr ⟨j, hent, hp⟩]
      rfl
  · rintro hnot fd _ hopened
    obtain ⟨⟨q, pos⟩, hq, rfl⟩ := Option.map_eq_some_iff.mp hopened
    obtain ⟨j, hent, hq⟩ := (hm.opened fd q pos).mp hq
    obtain rfl := ht.distinct.locates_unique hq hp
    exact hnot (List.mem_of_getElem? hent.refers)

/-- The first slot that is free is the first descriptor that is not open. -/
theorem Models.firstFree_eq (hm : I.Models fs) (h : I.Ok) : firstFree I.dt.reservedFd =
    (List.range defaultLimits.descriptors).find? fun fd => (fs.opened fd).isNone := by
  rw [firstFree_eq_find?, h.table.fdLength]
  refine List.find?_congr fun fd _ => Bool.eq_iff_iff.mpr ?_
  rw [decide_eq_true_iff]
  exact (hm.isNone_opened h).symm

/-- A descriptor of the table is closed, or it is for a file and a position in it. -/
theorem Models.descriptor_cases (hm : I.Models fs) (ht : I.Tidy)
    (hfd : fd < defaultLimits.descriptors) :
    I.dt.reservedFd[fd]? = some false ∧ fs.file fd = none ∨
      ∃ i pos p, I.dt.Entry fd i pos ∧ I.store.Locates p i ∧
        fs.file fd = some (p, content 121 (I.store.chunks i), pos) := by
  have hlt : fd < I.dt.reservedFd.length := by rwa [ht.ok.table.fdLength]
  rcases hres : I.dt.reservedFd[fd]? with _ | reserved
  · rw [List.getElem?_eq_none_iff] at hres
    omega
  cases reserved with
  | false =>
    have hclosed : ¬ Taken I.dt.reservedFd fd := by
      intro hopen
      rw [Taken, hres] at hopen
      cases hopen
    have hopened := Option.isNone_iff_eq_none.mp ((hm.isNone_opened ht.ok).mpr hclosed)
    exact Or.inl ⟨rfl, by simp only [FileSystem.file, hopened]⟩
  | true =>
    obtain ⟨i, pos, hent⟩ := ht.ok.exists_entry hres
    obtain ⟨p, hp, hopened⟩ := hm.exists_opened ht.ok hent
    refine Or.inr ⟨i, pos, p, hent, hp, FileSystem.file_eq_some.mpr ⟨hopened, ?_⟩⟩
    rw [hm.node_eq hp, Store.nodeOf_file (ht.apart.table hent)]

/-! ### Calls -/

/-- **An opening** of a file hands out the same descriptor. -/
theorem Models.opens (hm : I.Models fs) (ht : I.Tidy) {parent : List (List UInt8)}
    {name : List UInt8} {trailing : Bool} (hparent : ∀ c ∈ parent, IsComponent c)
    (hname : IsComponent name) (hlen : (pathOf (parent ++ [name]) trailing).length < bufferLength)
    (hfile : fs.OpensFile defaultLimits parent name) :
    (I.openPath (pathOf (parent ++ [name]) trailing)).1 =
        .done (fs.open defaultLimits parent name).1 ∧
      (I.openPath (pathOf (parent ++ [name]) trailing)).2.Tidy ∧
      (I.openPath (pathOf (parent ++ [name]) trailing)).2.Models
        (fs.open defaultLimits parent name).2 := by
  have hok := ht.ok.openPath_ok (pathOf (parent ++ [name]) trailing)
  unfold FileSystem.open FileSystem.OpensFile at *
  rcases hm.site ht hparent hname hlen with
    ⟨hnone, hsite⟩ | ⟨p, d, s, hdir, hp, hd, hs, hres, hsite⟩
  · rw [openPath_eq, hsite, FileSystem.resolve_of_no_directory hnone]
    exact ⟨rfl, ht, hm⟩
  rw [FileSystem.resolve_of_directory hdir] at hfile ⊢
  have hrel := hm.rel_find ht hp hd hs hname.nulFree
  obtain ⟨s', hs', hclean, _⟩ := ht.dirSlot hd
  obtain rfl : s' = s := Option.some.inj (hs'.symm.trans hs)
  generalize henter : fs.enter defaultLimits p name = x at hrel hfile ⊢
  generalize hfind : s'.find name = y at hrel
  cases hrel with
  | none =>
    obtain ⟨inode, hget, hkind⟩ := hd.2
    rw [store_inodes] at hget
    rw [openPath_eq, hsite]
    simp only [openIn, hget, hs, hkind, hclean, hfind, Bool.false_eq_true, if_false]
    exact ⟨trivial, ht, hm⟩
  | @some q i hq =>
    have htarget : I.store.target (pathOf (parent ++ [name]) trailing) = some i := by
      simp only [Store.target, hsite, hclean, hfind, if_false]
    have hnode := hm.node_eq hq
    have hfile : ¬ I.store.IsDir i := by
      intro hi
      rw [Store.nodeOf_dir hi] at hnode
      simp only [hnode] at hfile
    have hroot : i ≠ rootInodeId := by
      rintro rfl
      exact hfile ht.ok.directories.tree.root_dir
    have hun := hm.unopened_iff ht hq hroot
    rw [openPath_target htarget] at hok ⊢
    dsimp only
    rw [← hm.firstFree_eq ht.ok]
    by_cases hmem : i ∈ I.dt.fdToInode
    · -- the file is open
      have hdt : reserveDescriptor I.dt i = none := if_pos hmem
      rw [hdt, if_neg (hun.not.mpr (not_not.mpr hmem))]
      exact ⟨rfl, ht, hm⟩
    rw [if_pos (hun.mpr hmem)]
    rcases hfirst : firstFree I.dt.reservedFd with _ | fd
    · -- all descriptors are
      have hdt : reserveDescriptor I.dt i = none := by
        rw [reserveDescriptor, if_neg hmem, hfirst]
      rw [hdt]
      exact ⟨rfl, ht, hm⟩
    obtain ⟨dt, hdt⟩ : ∃ dt, reserveDescriptor I.dt i = some (fd, dt) :=
      ⟨_, by rw [reserveDescriptor, if_neg hmem, hfirst]⟩
    rw [hdt] at hok ⊢
    refine ⟨rfl, ht.setTable hok fun hent => ?_,
      hm.pointed ht.ok hq (ht.ok.reserved_entry hdt) fun hne => ⟨fun hent => ?_, fun hent => ?_⟩⟩
    · rcases entry_reserveDescriptor hdt hent with ⟨_, rfl, rfl⟩ | ⟨_, hold⟩
      · exact ⟨hfile, Nat.zero_le _⟩
      · exact ⟨ht.apart.table hold, ht.inside hold⟩
    · rcases entry_reserveDescriptor hdt hent with ⟨heq, _⟩ | ⟨_, hold⟩
      · exact absurd heq hne
      · exact hold
    · exact (hent.reserveDescriptor hdt).2

/-- **Closing** a descriptor of the table. -/
theorem Models.closes (hm : I.Models fs) (ht : I.Tidy) (hfd : fd < defaultLimits.descriptors) :
    (I.closeFd fd).1 = .done () ∧ (I.closeFd fd).2.Tidy ∧
      (I.closeFd fd).2.Models (fs.close fd) := by
  have hok := ht.ok.closeFd_ok fd
  have hclose : I.closeFd fd = (.done (), I.setTable (freeDescriptor I.dt fd)) := if_pos hfd
  rw [hclose] at hok ⊢
  refine ⟨rfl, ht.setTable hok fun hent => ?_, hm.setTable fun fd' p pos => ?_⟩
  · obtain ⟨_, hold⟩ := entry_freeDescriptor.mp hent
    exact ⟨ht.apart.table hold, ht.inside hold⟩
  · simp only [entry_freeDescriptor]
    by_cases heq : fd' = fd
    · subst heq
      rw [Function.update_self]
      exact iff_of_false (by rintro ⟨⟩) fun ⟨_, ⟨hne, _⟩, _⟩ => hne rfl
    · rw [Function.update_of_ne heq, hm.opened]
      simp only [ne_eq, heq, not_false_eq_true, true_and]

/-- A position inside its file is set. -/
theorem Models.moved (hm : I.Models fs) (ht : I.Tidy) (hent : I.dt.Entry fd i p₀)
    (hp : I.store.Locates p i) (hok : (I.setPosition fd pos).Ok)
    (hpos : pos ≤ (content 121 (I.store.chunks i)).length) :
    (I.setPosition fd pos).Tidy ∧ (I.setPosition fd pos).Models (fs.point fd p pos) := by
  refine ⟨ht.setTable hok fun h => ?_, hm.pointed ht.ok hp ?_ fun hne => ?_⟩
  · rcases entry_setPosition.mp h with ⟨rfl, rfl, _, hold⟩ | ⟨_, hold⟩
    · obtain ⟨rfl, _⟩ := hent.unique hold
      exact ⟨ht.apart.table hold, hpos⟩
    · exact ⟨ht.apart.table hold, ht.inside hold⟩
  · exact entry_setPosition.mpr (Or.inl ⟨rfl, rfl, _, hent⟩)
  · rw [entry_setPosition]
    simp only [hne, false_and, false_or, ne_eq, not_false_eq_true, true_and]

/-- **Seeking** inside a file, or too far. -/
theorem Models.seeks (hm : I.Models fs) (ht : I.Tidy) (hfd : fd < defaultLimits.descriptors)
    (hinside : fs.SeeksInside defaultLimits fd pos) :
    (I.seek fd pos).1 = .done () ∧ (I.seek fd pos).2.Tidy ∧
      (I.seek fd pos).2.Models (fs.lseek defaultLimits fd pos) := by
  have hok := ht.ok.seek_ok fd pos
  unfold FileSystem.lseek FileSystem.SeeksInside seek at *
  rcases hm.descriptor_cases ht hfd with ⟨hres, hfile⟩ | ⟨i, p₀, p, hent, hp, hfile⟩
  · rw [hres, hfile]
    exact ⟨rfl, ht, hm⟩
  rw [hfile] at hinside ⊢
  rw [hent.reserved] at hok ⊢
  dsimp only at hinside hok ⊢
  by_cases hpos : 968 ≤ pos
  · rw [if_pos hpos, if_pos (show defaultLimits.size ≤ pos from hpos)]
    exact ⟨rfl, ht, hm⟩
  · rw [if_neg hpos] at hok ⊢
    rw [if_neg (show ¬ defaultLimits.size ≤ pos from hpos)]
    exact ⟨rfl, hm.moved ht hent hp hok (hinside.resolve_right hpos)⟩

end Image

end MiniExt
