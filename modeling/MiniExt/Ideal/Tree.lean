import MiniExt.Lib.FileSystem
import MiniExt.Properties.Lookup
import Mathlib.Data.List.Find

namespace MiniExt

open Lib

/-!
# Ideal — what an image holds, by names

An image numbers its inodes; its users only know names.  Here an image is read as the nodes of a
`Lib.FileSystem`: names lead to inodes, and an inode is a directory of names or a file of bytes.

* `Store.nameTree`, `Store.nodeOf` — the names of an image and the node of an inode;
* `Image.Tidy` — the images in which every inode is such a node;
* `Image.Models` — an image and the file system that its users see;
* `Models.resolve` — both follow paths to the same nodes;
* `Models.found`, `Models.site` — so what is listed, and where something is created or opened, is
  known by names.
-/

/-- The limits of the default geometry: a directory of six records lists four names besides the
    two it always has. -/
def defaultLimits : Limits (List UInt8) where
  dot := dotName
  twoDots := twoDotsName
  names := 4
  size := 968
  block := 121
  descriptors := 16

/-- A file system with the names and bytes of this one. -/
abbrev IdealFs := FileSystem (List UInt8) UInt8

namespace Store

/-- The directory tree, with names for their fields. -/
def nameTree (st : Store) : DirTree Nat (List UInt8) :=
  st.tree.rename fun field => field.takeWhile (· ≠ 0)

/-- An inode as its users see it. -/
def nodeOf (st : Store) (i : Nat) : Node (List UInt8) UInt8 :=
  if st.IsDir i then .dir ((st.namedRecords i).map BlockRecord.name)
  else .file (content 121 (st.chunks i))

/-- The names lead from the root to inode `i`. -/
def Locates (st : Store) (p : List (List UInt8)) (i : Nat) : Prop :=
  st.nameTree.Leads p rootInodeId i

variable {st : Store} {d i : Nat}

/-- The names in the tree are those of the records. -/
theorem nameTree_named (st : Store) (d : Nat) :
    st.nameTree.named d = (st.namedRecords d).map fun r => (r.name, r.inodeId) :=
  List.map_map

/-- The node of a directory lists its names. -/
theorem nodeOf_dir (hd : st.IsDir d) :
    st.nodeOf d = .dir ((st.namedRecords d).map BlockRecord.name) :=
  if_pos hd

/-- The node of a file is its content. -/
theorem nodeOf_file (hi : ¬ st.IsDir i) : st.nodeOf i = .file (content 121 (st.chunks i)) :=
  if_neg hi

/-- A node that lists names is one of a directory. -/
theorem isDir_of_nodeOf {names : List (List UInt8)} (h : st.nodeOf i = .dir names) :
    st.IsDir i ∧ (st.namedRecords i).map BlockRecord.name = names := by
  by_cases hd : st.IsDir i
  · rw [nodeOf_dir hd] at h
    exact ⟨hd, Node.dir.inj h⟩
  · rw [nodeOf_file hd] at h
    cases h

end Store

namespace Image

/-- No directory has a name twice, no descriptor is for a directory, no directory block counts
    data, files have no gaps and no blocks for nothing, and positions are inside their files. -/
structure Tidy (I : Image) : Prop where
  ok : I.Ok
  distinct : I.Distinct
  apart : I.Apart
  snug : ∀ {i}, Taken I.sb.reservedInodesMask i → ¬ I.store.IsDir i → Snug 121 (I.store.chunks i)
  inside : ∀ {fd i pos}, I.dt.Entry fd i pos → pos ≤ (content 121 (I.store.chunks i)).length

/-- The users of the image see this file system. -/
structure Models (I : Image) (fs : IdealFs) : Prop where
  node : ∀ p n, fs.node p = some n ↔ ∃ i, I.store.Locates p i ∧ I.store.nodeOf i = n
  opened : ∀ fd p pos, fs.opened fd = some (p, pos) ↔
    ∃ i, I.dt.Entry fd i pos ∧ I.store.Locates p i
  freeNodes : fs.freeNodes = I.store.freeInodes
  freeBlocks : fs.freeBlocks = I.store.freeBlocks

variable {I : Image} {fs : IdealFs} {p q : List (List UInt8)} {c : List UInt8} {d i j : Nat}

/-! ### Names and inodes -/

/-- **The names of an image** are grounded in the root. -/
theorem Ok.nameTree_grounded (h : I.Ok) : I.store.nameTree.Grounded rootInodeId :=
  h.directories.tree.rename _

/-- One list of names leads to an inode. -/
theorem Ok.locates_inj (h : I.Ok) (hp : I.store.Locates p i) (hq : I.store.Locates q i) : p = q :=
  h.nameTree_grounded.leads_inj hp hq

/-- What a path locates is reserved. -/
theorem Ok.taken_of_locates (h : I.Ok) (hp : I.store.Locates p i) :
    Taken I.sb.reservedInodesMask i :=
  h.nameTree_grounded.live_of_leads hp

/-- And one leads to everything that is linked. -/
theorem Ok.exists_locates (h : I.Ok) (hi : I.store.tree.Named i) : ∃ p, I.store.Locates p i :=
  h.nameTree_grounded.exists_leads (Or.inr (hi.rename _))

/-- The names of a directory differ. -/
theorem Distinct.named (h : I.Distinct) (hd : I.store.IsDir d) :
    ((I.store.namedRecords d).map BlockRecord.name).Nodup := by
  have hall := h d hd
  rw [← List.take_append_drop 2 (I.store.records d), List.map_append] at hall
  exact hall.of_append_right

/-- It leads to no other inode. -/
theorem Distinct.locates_unique (h : I.Distinct) (hi : I.store.Locates p i)
    (hj : I.store.Locates p j) : i = j := by
  refine DirTree.Leads.unique (fun d hd => ?_) hi hj
  rw [Store.nameTree_named, List.map_map]
  exact h.named hd

/-- The names of a directory lead on from it. -/
theorem locates_concat : I.store.Locates (p ++ [c]) j ↔ ∃ d, I.store.Locates p d ∧
    I.store.IsDir d ∧ ∃ r ∈ I.store.namedRecords d, r.name = c ∧ r.inodeId = j := by
  refine DirTree.leads_concat.trans (exists_congr fun d => and_congr_right fun _ =>
    and_congr_right fun _ => ?_)
  rw [Store.nameTree_named, List.mem_map]
  simp only [Prod.mk.injEq]

/-! ### One name -/

namespace Tidy

variable (ht : I.Tidy)

include ht

/-- The first block of a directory. -/
theorem dirSlot (hd : I.store.IsDir d) :
    ∃ s, I.store.firstSlot d = some s ∧ ¬ s.Mixed ∧ s.records = I.store.records d := by
  obtain ⟨_, b, s, _, _, _, _, _, hblock, _⟩ := ht.ok.layout.dirBlock hd
  have hfirst := firstSlot_eq hblock
  exact ⟨s, hfirst, fun hmixed => hmixed.2 (ht.apart.clean hd hfirst),
    (records_of_block hblock).symm⟩

/-- What a lookup in a directory finds: itself, its parent, or what it lists. -/
theorem find_eq (hd : I.store.IsDir d) {s : Slot} (hs : I.store.firstSlot d = some s)
    (hz : 0 ∉ c) : s.find c =
      if c = dotName then some d
      else if c = twoDotsName then some (I.store.parentOf d)
      else ((I.store.namedRecords d).find? (·.name = c)).map (·.inodeId) := by
  obtain ⟨s', hs', _, hrecords⟩ := ht.dirSlot hd
  obtain rfl : s' = s := Option.some.inj (hs'.symm.trans hs)
  have hfield : ∀ {a : List UInt8}, 0 ∉ a →
      (nameField defaultFsInfo a = nameField defaultFsInfo c ↔ a = c) :=
    fun ha => ⟨nameField_inj ha hz, fun heq => heq ▸ rfl⟩
  have hnamed : (I.store.namedRecords d).find? (·.path = nameField defaultFsInfo c) =
      (I.store.namedRecords d).find? (·.name = c) := by
    refine List.find?_congr fun r hr => ?_
    have hpath := (ht.ok.path_eq hd (List.mem_of_mem_drop hr)).1
    have hrz : 0 ∉ r.name := fun hmem => by simpa using List.mem_takeWhile_imp hmem
    rw [decide_eq_decide, hpath]
    exact hfield hrz
  rw [Slot.find, hrecords, (ht.ok.layout.records_eq hd).1, List.find?_cons, List.find?_cons, hnamed]
  simp only [hfield (show (0 : UInt8) ∉ dotName by decide),
    hfield (show (0 : UInt8) ∉ twoDotsName by decide)]
  by_cases hdot : c = dotName
  · rw [if_pos hdot, hdot, decide_eq_true rfl]
    rfl
  · rw [if_neg hdot, decide_eq_false (Ne.symm hdot)]
    by_cases hdots : c = twoDotsName
    · rw [if_pos hdots, hdots, decide_eq_true rfl]
      rfl
    · rw [if_neg hdots, decide_eq_false (Ne.symm hdots)]

/-- A directory's lookups are those of its first block. -/
theorem child_eq_find (hd : I.store.IsDir d) {s : Slot} (hs : I.store.firstSlot d = some s) :
    I.store.child d c = s.find c := by
  obtain ⟨s', hs', hclean, _⟩ := ht.dirSlot hd
  obtain rfl : s' = s := Option.some.inj (hs'.symm.trans hs)
  obtain ⟨inode, hget, hkind⟩ := hd.2
  simp [Store.child, hget, hs, hkind, hclean]

/-- A step from a directory stays, goes up or finds a record. -/
theorem child_eq (hd : I.store.IsDir d) (hz : 0 ∉ c) : I.store.child d c =
    if c = dotName then some d
    else if c = twoDotsName then some (I.store.parentOf d)
    else ((I.store.namedRecords d).find? (·.name = c)).map (·.inodeId) := by
  obtain ⟨s, hs, _⟩ := ht.dirSlot hd
  rw [ht.child_eq_find hd hs, ht.find_eq hd hs hz]

end Tidy

/-- There is no step from a file. -/
theorem child_of_not_isDir (hi : Taken I.sb.reservedInodesMask i) (hdir : ¬ I.store.IsDir i) :
    I.store.child i c = none := by
  rw [Option.eq_none_iff_forall_not_mem]
  intro j hj
  exact hdir ⟨hi, (Store.child_eq_some.mp hj).1⟩

/-- The node at the end of names. -/
theorem Models.node_eq (hm : I.Models fs) (hp : I.store.Locates p i) :
    fs.node p = some (I.store.nodeOf i) :=
  (hm.node p _).mpr ⟨i, hp, rfl⟩

/-- **One name** leads to the same node in both. -/
theorem Models.enter (hm : I.Models fs) (ht : I.Tidy) (hp : I.store.Locates p d) (hz : 0 ∉ c) :
    Option.Rel I.store.Locates (fs.enter defaultLimits p c) (I.store.child d c) := by
  have hnode := hm.node_eq hp
  by_cases hd : I.store.IsDir d
  · rw [Store.nodeOf_dir hd] at hnode
    rw [FileSystem.enter_of_dir hnode, ht.child_eq hd hz]
    show Option.Rel _ (if c = dotName then _ else if c = twoDotsName then _ else _) _
    split
    · exact .some hp
    split
    · exact .some (ht.ok.nameTree_grounded.leads_dropLast hp hd)
    · rcases hfind : (I.store.namedRecords d).find? (·.name = c) with _ | r
      · -- no record has the name
        have hnone : c ∉ (I.store.namedRecords d).map BlockRecord.name := by
          rw [List.mem_map]
          rintro ⟨r, hr, hname⟩
          simpa [hname] using List.find?_eq_none.mp hfind r hr
        rw [if_neg hnone, hfind]
        exact .none
      · have hr := List.mem_of_find?_eq_some hfind
        have hname : r.name = c := by simpa using List.find?_some hfind
        rw [if_pos (List.mem_map.mpr ⟨r, hr, hname⟩), hfind]
        exact .some (locates_concat.mpr ⟨d, hp, hd, r, hr, hname, rfl⟩)
  · rw [Store.nodeOf_file hd] at hnode
    rw [FileSystem.enter_of_file hnode, child_of_not_isDir (ht.ok.taken_of_locates hp) hd]
    exact .none

/-- What a creation or an opening finds in the block of the directory. -/
theorem Models.rel_find (hm : I.Models fs) (ht : I.Tidy) (hp : I.store.Locates p d)
    (hd : I.store.IsDir d) {s : Slot} (hs : I.store.firstSlot d = some s) (hz : 0 ∉ c) :
    Option.Rel I.store.Locates (fs.enter defaultLimits p c) (s.find c) := by
  have hrel := hm.enter ht hp hz
  rwa [ht.child_eq_find hd hs] at hrel

/-- **Paths** lead to the same nodes. -/
theorem Models.resolve (hm : I.Models fs) (ht : I.Tidy) {names : List (List UInt8)}
    (hnames : ∀ c ∈ names, IsComponent c) :
    Option.Rel I.store.Locates (fs.resolve defaultLimits names)
      (I.store.follow names rootInodeId) :=
  FileSystem.rel_foldlM (g := fs.enter defaultLimits) (f := I.store.child)
    (fun c hc _ _ hp => hm.enter ht hp (hnames c hc).nulFree)
    (show I.store.Locates [] rootInodeId from rfl)

/-- A walk of components comes to an end. -/
theorem Tidy.walk_done (ht : I.Tidy) {names : List (List UInt8)} {trailing : Bool}
    (hnames : ∀ c ∈ names, IsComponent c) (hne : names ≠ [] ∨ trailing = true) {fuel current : Nat}
    (hfuel : names.length < fuel) (hcur : Taken I.sb.reservedInodesMask current)
    (hl : I.store.tree.Linked rootInodeId current) :
    ∃ o, I.store.walk fuel (pathOf names trailing) current = .done o := by
  -- by induction on the components, one call of the walk each
  induction names generalizing fuel current with
  | nil =>
    obtain rfl := hne.resolve_left (not_not.mpr rfl)
    obtain ⟨fuel, rfl⟩ := Nat.exists_eq_succ_of_ne_zero (Nat.ne_zero_of_lt hfuel)
    obtain ⟨inode, hget, _⟩ := ht.ok.layout.inode hcur
    have hparse : parsePath defaultFsInfo (pathOf [] true) = .done ([slash], none) :=
      parsePath_root (by decide)
    rw [Store.walk]
    simp only [store_inodes, hget, hparse, if_true]
    split
    · exact ⟨_, rfl⟩
    · exact ⟨_, rfl⟩
  | cons c names ih =>
    obtain ⟨fuel, rfl⟩ := Nat.exists_eq_succ_of_ne_zero (Nat.ne_zero_of_lt hfuel)
    obtain ⟨hc, hrest⟩ := List.forall_mem_cons.mp hnames
    obtain ⟨inode, hget, _⟩ := ht.ok.layout.inode hcur
    rw [Store.walk]
    simp only [store_inodes, hget]
    by_cases hkind : inode.isFile = true
    · rw [if_pos hkind]
      exact ⟨_, rfl⟩
    rw [if_neg hkind]
    have hd : I.store.IsDir current := ⟨hcur, inode, hget, by simpa using hkind⟩
    obtain ⟨s, hs, hclean, _⟩ := ht.dirSlot hd
    by_cases hlast : names = [] ∧ trailing = false
    · obtain ⟨rfl, rfl⟩ := hlast
      simp only [hc.parsePath_last, if_neg hc.ne_slash, hs, if_neg hclean]
      rcases s.find c with _ | next
      · exact ⟨_, rfl⟩
      · exact ⟨_, rfl⟩
    · have hmore : names ≠ [] ∨ trailing = true := by
        cases trailing with
        | false => exact Or.inl fun hnil => hlast ⟨hnil, rfl⟩
        | true => exact Or.inr rfl
      simp only [hc.parsePath_cons hmore, if_neg hc.ne_slash, hs, if_neg hclean]
      rcases hfind : s.find c with _ | next
      · exact ⟨_, rfl⟩
      · obtain ⟨hnext, hlnext⟩ := ht.ok.find_linked hd hl hs hfind
        exact ih hrest hmore (Nat.lt_of_succ_lt_succ hfuel) hnext hlnext

section Site

variable {names parent : List (List UInt8)} {name : List UInt8} {trailing : Bool}

/-- What the walk of a path finds: nothing, and there is no directory, or the node that the names
    lead to. -/
theorem Models.found (hm : I.Models fs) (ht : I.Tidy) (hnames : ∀ c ∈ names, IsComponent c)
    (hne : names ≠ [] ∨ trailing = true) :
    fs.directory defaultLimits names = none ∧
        I.store.resolve (pathOf names trailing) = .done none ∨
      ∃ p i, fs.resolve defaultLimits names = some p ∧ I.store.Locates p i ∧
        I.store.resolve (pathOf names trailing) = .done (some i) := by
  have hiff : ∀ i, I.store.resolve (pathOf names trailing) = .done (some i) ↔ _ := fun i =>
    Store.resolve_pathOf hnames hne
  obtain ⟨o, hwalk⟩ := ht.walk_done hnames hne
    (Nat.lt_succ_of_le (Store.length_le_pathOf names trailing)) ht.ok.root_reserved (Or.inl rfl)
  have hres : I.store.resolve (pathOf names trailing) = .done o := hwalk
  have hrel := hm.resolve ht hnames
  cases o with
  | none =>
    refine Or.inl ⟨?_, hres⟩
    -- the names lead nowhere, or to a file
    rw [Option.eq_none_iff_forall_not_mem]
    rintro ⟨p, listed⟩ hdir
    obtain ⟨hp, hnode⟩ := FileSystem.directory_eq_some.mp hdir
    rw [hp] at hrel
    generalize hfollow : I.store.follow names rootInodeId = x at hrel
    cases hrel with
    | some hloc =>
      rw [hm.node_eq hloc, Option.some.injEq] at hnode
      have hfound := (hiff _).mpr ⟨hfollow, fun _ => (Store.isDir_of_nodeOf hnode).1.2⟩
      rw [hres] at hfound
      cases hfound
  | some i =>
    obtain ⟨hfollow, _⟩ := (hiff i).mp hres
    rw [hfollow] at hrel
    generalize fs.resolve defaultLimits names = x at hrel
    cases hrel with
    | some hloc => exact Or.inr ⟨_, i, rfl, hloc, hres⟩

/-- What `mkdir`, `touch` and `open` find at a path: the directory that the file system has
    there, or nothing. -/
theorem Models.site (hm : I.Models fs) (ht : I.Tidy) (hparent : ∀ c ∈ parent, IsComponent c)
    (hname : IsComponent name)
    (hlen : (pathOf (parent ++ [name]) trailing).length < bufferLength) :
    fs.directory defaultLimits parent = none ∧
        I.store.site (pathOf (parent ++ [name]) trailing) = .done none ∨
      ∃ p d s, fs.directory defaultLimits parent =
          some (p, (I.store.namedRecords d).map BlockRecord.name) ∧
        I.store.Locates p d ∧ I.store.IsDir d ∧ I.store.firstSlot d = some s ∧
        I.store.resolve (pathOf parent true) = .done (some d) ∧
        I.store.site (pathOf (parent ++ [name]) trailing) = .done (some (d, s, name)) := by
  have hsplit := splitPath_pathOf hname (Or.inl hlen)
  rcases hm.found ht hparent (Or.inr (rfl : true = true)) with
    ⟨hnone, hres⟩ | ⟨p, d, hresolve, hp, hres⟩
  · exact Or.inl ⟨hnone, by simp only [Store.site, hsplit, hres]⟩
  · -- a trailing slash leads to directories only
    have hd : I.store.IsDir d := ⟨(ht.ok.resolve_linked hres).1,
      ((Store.resolve_pathOf hparent (Or.inr rfl)).mp hres).2 rfl⟩
    obtain ⟨s, hs, _, _⟩ := ht.dirSlot hd
    refine Or.inr ⟨p, d, s, ?_, hp, hd, hs, hres, ?_⟩
    · exact FileSystem.directory_eq_some.mpr
        ⟨hresolve, by rw [hm.node_eq hp, Store.nodeOf_dir hd]⟩
    · obtain ⟨inode, hget, hkind⟩ := hd.2
      exact Store.site_eq_iff.mpr ⟨_, inode, hsplit, hres, hget, hkind, hs⟩

end Site

end Image

end MiniExt
