import MiniExt.Properties.OwnImage

namespace MiniExt

open Lib

/-!
# The directory tree

In every image that runs of commands reach, the records of the directories form a tree.

* `Store.TreeShaped` — the property, of the records on disk;
* `records_form_tree` — every run keeps it.
-/

/-- A record of `d` that is neither its first nor its second one leads to inode `i`. -/
def Store.Names (st : Store) (d k i : Nat) : Prop :=
  ∃ r, (st.records d)[k]? = some r ∧ r.path ≠ nameField defaultFsInfo dotName ∧
    r.path ≠ nameField defaultFsInfo twoDotsName ∧ r.inodeId = i

/-- The records of the reserved directories form a tree. -/
structure Store.TreeShaped (st : Store) : Prop where
  dot : ∀ {d}, st.IsDir d → ∀ r ∈ st.records d, r.path = nameField defaultFsInfo dotName →
    r.inodeId = d
  dot_mem : ∀ {d}, st.IsDir d → ⟨d, nameField defaultFsInfo dotName⟩ ∈ st.records d
  dotDot_mem : ∀ {d}, st.IsDir d →
    ⟨st.parentOf d, nameField defaultFsInfo twoDotsName⟩ ∈ st.records d
  dotDot : ∀ {d}, st.IsDir d → ∀ r ∈ st.records d, r.path = nameField defaultFsInfo twoDotsName →
    r.inodeId = st.parentOf d
  child : ∀ {d k i}, st.IsDir d → st.Names d k i → st.InodeReserved i ∧ i ≠ rootInodeId
  unique : ∀ {d d' k k' i}, st.IsDir d → st.IsDir d' → st.Names d k i → st.Names d' k' i →
    d = d' ∧ k = k'
  parent : ∀ {d k i}, st.IsDir d → st.Names d k i → st.IsDir i → st.parentOf i = d
  root : st.IsDir rootInodeId ∧ st.parentOf rootInodeId = rootInodeId
  reachesRoot : ∀ {d k i}, st.IsDir d → st.Names d k i → st.IsDir i →
    ∃ n, st.parentOf^[n] i = rootInodeId

/-- The fields of `.` and `..` differ. -/
theorem dotName_ne_twoDotsName :
    nameField defaultFsInfo dotName ≠ nameField defaultFsInfo twoDotsName := by
  decide

/-- A name that a creation stored is neither `.` nor `..` on disk. -/
theorem BlockRecord.WellNamed.path_ne {r : BlockRecord} (h : r.WellNamed) :
    r.path ≠ nameField defaultFsInfo dotName ∧ r.path ≠ nameField defaultFsInfo twoDotsName := by
  obtain ⟨name, hpath, _, hz, hdot, hdots⟩ := h
  rw [hpath]
  exact ⟨fun heq => hdot (nameField_inj hz (by decide) heq),
    fun heq => hdots (nameField_inj hz (by decide) heq)⟩

namespace Image.Ok

variable {I : Image} {d k i : Nat}

/-- The names in a directory are what follows its first two records. -/
theorem names_iff (h : I.Ok) (hd : I.store.IsDir d) :
    I.store.Names d k i ↔
      ∃ j r, k = j + 2 ∧ (I.store.namedRecords d)[j]? = some r ∧ r.inodeId = i := by
  obtain ⟨hrec, _⟩ := h.layout.records_eq hd
  constructor
  · rintro ⟨r, hr, hdot, hdots, rfl⟩
    rw [hrec] at hr
    obtain _ | _ | j := k
    · cases hr
      exact absurd rfl hdot
    · cases hr
      exact absurd rfl hdots
    · exact ⟨j, r, rfl, hr, rfl⟩
  · rintro ⟨j, r, rfl, hr, rfl⟩
    obtain ⟨hdot, hdots⟩ := (h.directories.names hd r (List.mem_of_getElem? hr)).path_ne
    refine ⟨r, ?_, hdot, hdots, rfl⟩
    rw [hrec]
    exact hr

/-- A name, as an edge of the tree. -/
theorem names_edge (h : I.Ok) (hd : I.store.IsDir d) (hi : I.store.Names d k i) :
    ∃ j e, k = j + 2 ∧ (I.store.tree.named d)[j]? = some e ∧ e.2 = i := by
  obtain ⟨j, r, rfl, hr, rfl⟩ := (h.names_iff hd).mp hi
  refine ⟨j, (r.path, r.inodeId), rfl, ?_, rfl⟩
  show ((I.store.namedRecords d).map _)[j]? = _
  rw [List.getElem?_map, hr]
  rfl

/-- A node of the tree that is named, by a record on disk. -/
theorem named_iff (h : I.Ok) :
    I.store.tree.Named i ↔ ∃ d k, I.store.IsDir d ∧ I.store.Names d k i := by
  constructor
  · rintro ⟨d, hd, e, he, rfl⟩
    obtain ⟨r, hr, rfl⟩ := List.mem_map.mp he
    obtain ⟨j, hj⟩ := List.mem_iff_getElem?.mp hr
    exact ⟨d, j + 2, hd, (h.names_iff hd).mpr ⟨j, r, rfl, hj, rfl⟩⟩
  · rintro ⟨d, k, hd, hi⟩
    obtain ⟨j, e, _, he, rfl⟩ := h.names_edge hd hi
    exact ⟨d, hd, e, List.mem_of_getElem? he, rfl⟩

/-- A record of a directory that is called `.` or `..` is its first or second one. -/
theorem dots_unique (h : I.Ok) (hd : I.store.IsDir d) {r : BlockRecord}
    (hr : r ∈ I.store.records d) :
    (r.path = nameField defaultFsInfo dotName → r.inodeId = d) ∧
      (r.path = nameField defaultFsInfo twoDotsName → r.inodeId = I.store.parentOf d) := by
  obtain ⟨hrec, _⟩ := h.layout.records_eq hd
  rw [hrec, List.mem_cons, List.mem_cons] at hr
  rcases hr with rfl | rfl | hr
  · exact ⟨fun _ => rfl, fun heq => absurd heq dotName_ne_twoDotsName⟩
  · exact ⟨fun heq => absurd heq.symm dotName_ne_twoDotsName, fun _ => rfl⟩
  · obtain ⟨hdot, hdots⟩ := (h.directories.names hd r hr).path_ne
    exact ⟨fun heq => absurd heq hdot, fun heq => absurd heq hdots⟩

/-- The records of an image that keeps the invariant. -/
theorem treeShaped (h : I.Ok) : I.store.TreeShaped where
  dot hd _ hr := (h.dots_unique hd hr).1
  dot_mem hd := by
    rw [(h.layout.records_eq hd).1]
    exact List.mem_cons_self ..
  dotDot_mem hd := by
    rw [(h.layout.records_eq hd).1]
    exact List.mem_cons_of_mem _ (List.mem_cons_self ..)
  dotDot hd _ hr := (h.dots_unique hd hr).2
  child hd hi := by
    obtain ⟨j, e, _, he, rfl⟩ := h.names_edge hd hi
    have he := List.mem_of_getElem? he
    exact ⟨h.directories.tree.child_live hd he, h.directories.tree.child_ne_root hd he⟩
  unique hd hd' hi hi' := by
    obtain ⟨j, e, rfl, he, rfl⟩ := h.names_edge hd hi
    obtain ⟨j', e', rfl, he', heq⟩ := h.names_edge hd' hi'
    obtain ⟨rfl, rfl⟩ := h.directories.tree.unique hd hd' he he' heq.symm
    exact ⟨rfl, rfl⟩
  parent hd hi hdir := by
    obtain ⟨j, e, _, he, rfl⟩ := h.names_edge hd hi
    exact h.directories.tree.child_parent hd (List.mem_of_getElem? he) hdir
  root := ⟨h.root_dir, h.directories.tree.root_parent⟩
  reachesRoot _ _ hdir := h.directories.tree.reaches_root hdir

end Image.Ok

/-- **The directory records form a tree**, whatever the commands were that led there, as long as
    none of them wrote a host file onto the image. -/
theorem records_form_tree {w : World} (hw : Reachable w) : w.store.TreeShaped := by
  obtain ⟨I, hI, hstore⟩ := hw.image
  rw [hstore]
  exact hI.treeShaped

/-- A directory `/d` with a file `/d/f`. -/
theorem records_form_tree_nested :
    (((World.mk .blank .onlyImage).step .init).steps
      [.mkdir ⟨[47, 100], by decide⟩, .touch ⟨[47, 100, 47, 102], by decide⟩]).store.TreeShaped :=
  records_form_tree ((Reachable.init _).steps _ (by decide))

/-- A `read_to` onto the image ends the tree: its bytes bring back the masks of a new image, while
    the root still names `/f`. -/
theorem not_treeShaped_rewritten : ∃ f : ImageFile,
    runCommands fileHandler ImageFile.access
        (.init :: headCommands ++ [.readTo 1 imagePath none]) (⟨[], 0⟩, headFiles) =
      some (List.replicate 8 (.done ()), f, headFiles) ∧
    Represents f.bytes rewrittenStore ∧ ¬ rewrittenStore.TreeShaped := by
  obtain ⟨f, hrun, hf⟩ := rewritten_reached
  refine ⟨f, hrun, hf, fun h => ?_⟩
  have hrecord : (rewrittenStore.records 0)[2]? = some ⟨1, nameField defaultFsInfo [102]⟩ := by
    decide +kernel
  have hnames : rewrittenStore.Names 0 2 1 := ⟨_, hrecord, by decide, by decide, rfl⟩
  have hfree : ¬ rewrittenStore.InodeReserved 1 := by decide +kernel
  exact hfree (h.child h.root.1 hnames).1

end MiniExt
