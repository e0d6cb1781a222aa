import MiniExt.Ideal.Tree

namespace MiniExt

open Lib

/-!
# Ideal — creations

A creation that finds room adds one inode and one record, and its users see one new node under
one new name.

* `Image.Added` — the difference between the two images, and `CreateAt.added`, that a creation
  makes it;
* `Added.locates_iff` — the new names;
* `Added.models` — the new node;
* `Models.created` — `mkdir` and `touch`, whether they add something or not.
-/

namespace Image

variable {I K : Image} {fs : IdealFs} {isFile : Bool} {p : List (List UInt8)} {d n : Nat}
  {name : List UInt8}

/-- `K` has one more inode `n`, under a new name in directory `d`. -/
structure Added (I K : Image) (isFile : Bool) (d n : Nat) (name : List UInt8) : Prop where
  fresh : ¬ Taken I.sb.reservedInodesMask n
  taken : ∀ x, Taken K.sb.reservedInodesMask x ↔ x = n ∨ Taken I.sb.reservedInodesMask x
  parent : I.store.IsDir d
  dir : ∀ x, K.store.IsDir x ↔ (x = n ∧ isFile = false) ∨ I.store.IsDir x
  named : K.store.namedRecords d = I.store.namedRecords d ++ [⟨n, nameField defaultFsInfo name⟩]
  others : ∀ x, I.store.IsDir x → x ≠ d → K.store.namedRecords x = I.store.namedRecords x
  emptyDir : isFile = false → K.store.namedRecords n = []
  emptyFile : isFile = true → K.store.chunks n = [[]]
  files : ∀ x, Taken I.sb.reservedInodesMask x → ¬ I.store.IsDir x →
    K.store.chunks x = I.store.chunks x
  table : K.dt = I.dt
  freeInodes : K.store.freeInodes = I.store.freeInodes - 1
  freeBlocks : K.store.freeBlocks = I.store.freeBlocks - 1

/-! ### What a creation adds -/

/-- A creation with room adds a node to the image. -/
theorem CreateAt.added {path : List UInt8} {b b₀ : Nat} {s : Slot}
    (hat : I.CreateAt path d name n b b₀ s) (h : I.Ok) (isFile : Bool) (hz : 0 ∉ path)
    (hroom : s.info.recordsCount ≠ 6) (hshort : name.length < 16) :
    Added I ((I.alloc isFile d n b).link d ⟨n, nameField defaultFsInfo name⟩) isFile d n name := by
  obtain ⟨hnlt, hnfree, _⟩ := firstFree_eq_some_iff.mp hat.inodeFree
  obtain ⟨hdir, _, _⟩ := h.alloc_tree isFile d hat.inodeFree hat.blockFree
  obtain ⟨_, _, _, hrecords⟩ := hat.link_ok h isFile hz hroom hshort
  have hlink := hat.link_eq h isFile ⟨n, nameField defaultFsInfo name⟩
  have hsame : ∀ {x}, Taken I.sb.reservedInodesMask x → x ≠ d → SameInode x I
      ((I.alloc isFile d n b).link d ⟨n, nameField defaultFsInfo name⟩) := fun hx hne =>
    (hat.sameInode_alloc h isFile hx).trans
      (hat.sameInode_link h isFile _ (hat.taken_alloc isFile hx) hne)
  refine
    { fresh := hnfree, taken := fun x => ?_, parent := hat.dir, dir := fun x => ?_, named := ?_,
      others := fun x hx hne => ?_, emptyDir := fun hkind => ?_,
      emptyFile := fun hkind => (hat.created_file h isFile hroom hshort hkind).2,
      files := fun x hx hfile => ?_, table := ?_, freeInodes := ?_, freeBlocks := ?_ }
  · rw [hlink]
    exact taken_set hnlt
  · rw [hlink]
    exact hdir x
  · -- the record is added behind `.` and `..`
    have hlen : 2 ≤ (I.store.records d).length := by
      rw [(h.layout.records_eq hat.dir).1]
      simp
    rw [Store.namedRecords, hrecords, List.drop_append_of_le_length hlen]
    rfl
  · rw [Store.namedRecords, Store.records, (hsame hx.1 hne).firstSlot h hx.1]
    rfl
  · rw [Store.namedRecords, (hat.created_directory h isFile _ hkind).2]
    rfl
  · refine (hsame hx ?_).chunks
    rintro rfl
    exact hfile hat.dir
  · rw [hlink]
    rfl
  · rw [hlink]
    exact free_set hat.inodeFree
  · rw [hlink]
    exact free_set hat.blockFree

/-! ### What its users see -/

namespace Added

variable (ha : I.Added K isFile d n name)

include ha

/-- **The new names**: those of before, and one more. -/
theorem locates_iff (h : I.Ok) (hz : 0 ∉ name) (hp : I.store.Locates p d)
    {q : List (List UInt8)} {j : Nat} :
    K.store.Locates q j ↔ I.store.Locates q j ∨ q = p ++ [name] ∧ j = n := by
  have hnames : ∀ (st : Store) x, st.nameTree.named x =
      (st.namedRecords x).map fun r => (r.name, r.inodeId) := Store.nameTree_named
  have hiff : K.store.nameTree.Leads q rootInodeId j ↔ _ := DirTree.leads_link (c := name)
    h.nameTree_grounded ha.parent ha.fresh ha.dir
    (fun x hx hne => by rw [hnames, hnames, ha.others x hx hne])
    (by rw [hnames, hnames, ha.named, List.map_append, List.map_singleton, name_nameField hz])
    (fun hkind => by rw [hnames, ha.emptyDir hkind, List.map_nil])
  refine hiff.trans (or_congr Iff.rfl ⟨?_, ?_⟩)
  · rintro ⟨p', hp', hq, hj⟩
    rw [h.locates_inj hp hp']
    exact ⟨hq, hj⟩
  · rintro ⟨hq, hj⟩
    exact ⟨p, hp, hq, hj⟩

/-- The nodes of before, but for the directory. -/
theorem nodeOf_old {i : Nat} (hi : Taken I.sb.reservedInodesMask i) (hne : i ≠ d) :
    K.store.nodeOf i = I.store.nodeOf i := by
  have hin : i ≠ n := fun heq => ha.fresh (heq ▸ hi)
  have hiff : K.store.IsDir i ↔ I.store.IsDir i := by
    rw [ha.dir]
    exact ⟨fun h => h.resolve_left fun h' => hin h'.1, Or.inr⟩
  by_cases hd : I.store.IsDir i
  · rw [Store.nodeOf_dir hd, Store.nodeOf_dir (hiff.mpr hd), ha.others i hd hne]
  · rw [Store.nodeOf_file hd, Store.nodeOf_file (hiff.not.mpr hd), ha.files i hi hd]

/-- The directory lists the new name last. -/
theorem nodeOf_parent (hz : 0 ∉ name) : K.store.nodeOf d =
    .dir ((I.store.namedRecords d).map BlockRecord.name ++ [name]) := by
  rw [Store.nodeOf_dir ((ha.dir d).mpr (Or.inr ha.parent)), ha.named, List.map_append,
    List.map_singleton, name_nameField hz]

/-- The new node is empty. -/
theorem nodeOf_new :
    K.store.nodeOf n = if isFile then .file [] else .dir [] := by
  cases isFile with
  | false =>
    rw [Store.nodeOf_dir ((ha.dir n).mpr (Or.inl ⟨rfl, rfl⟩)), ha.emptyDir rfl]
    rfl
  | true =>
    have hfile : ¬ K.store.IsDir n := by
      rw [ha.dir]
      rintro (⟨_, hkind⟩ | hold)
      · exact Bool.noConfusion hkind
      · exact ha.fresh hold.1
    rw [Store.nodeOf_file hfile, ha.emptyFile rfl]
    rfl

/-- **The new node.** -/
theorem models (hm : I.Models fs) (h : I.Ok) (hdist : K.Distinct) (hz : 0 ∉ name)
    (hp : I.store.Locates p d) :
    K.Models (fs.add p ((I.store.namedRecords d).map BlockRecord.name) name
      (if isFile then .file [] else .dir [])) := by
  have hloc := fun {q j} => ha.locates_iff h hz hp (q := q) (j := j)
  have hnode : ∀ {q i}, K.store.Locates q i → ∀ m,
      (∃ j, K.store.Locates q j ∧ K.store.nodeOf j = m) ↔ K.store.nodeOf i = m := by
    intro q i hi m
    constructor
    · rintro ⟨j, hj, rfl⟩
      rw [hdist.locates_unique hi hj]
    · intro heq
      exact ⟨i, hi, heq⟩
  refine ⟨fun q m => ?_, fun fd q pos => ?_, ?_, ?_⟩
  · show Function.update (Function.update fs.node p _) (p ++ [name]) _ q = some m ↔ _
    by_cases hnew : q = p ++ [name]
    · subst hnew
      rw [Function.update_self, Option.some.injEq, hnode (hloc.mpr (Or.inr ⟨rfl, rfl⟩)),
        ha.nodeOf_new]
    rw [Function.update_of_ne hnew]
    by_cases hparent : q = p
    · subst hparent
      rw [Function.update_self, Option.some.injEq, hnode (hloc.mpr (Or.inl hp)),
        ha.nodeOf_parent hz]
    rw [Function.update_of_ne hparent, hm.node]
    refine exists_congr fun i => ?_
    rw [hloc]
    constructor
    · rintro ⟨hi, heq⟩
      refine ⟨Or.inl hi, ?_⟩
      rw [ha.nodeOf_old (h.taken_of_locates hi)]
      · exact heq
      · rintro rfl
        exact hparent (h.locates_inj hi hp)
    · rintro ⟨hi | ⟨hq, _⟩, heq⟩
      · refine ⟨hi, ?_⟩
        rw [← ha.nodeOf_old (h.taken_of_locates hi)]
        · exact heq
        · rintro rfl
          exact hparent (h.locates_inj hi hp)
      · exact absurd hq hnew
  · show fs.opened fd = _ ↔ _
    rw [hm.opened, ha.table]
    refine exists_congr fun i => and_congr_right fun hent => ?_
    rw [hloc]
    refine ⟨Or.inl, fun hi => hi.resolve_right ?_⟩
    -- descriptors are for inodes of before
    rintro ⟨_, rfl⟩
    exact ha.fresh (h.descriptor hent.reserved hent.refers).1
  · rw [ha.freeInodes, ← hm.freeNodes]
    rfl
  · rw [ha.freeBlocks, ← hm.freeBlocks]
    rfl

/-- The image stays tidy. -/
theorem tidy (ht : I.Tidy) (hK : K.Ok) (hdist : K.Distinct) (hapart : K.Apart) : K.Tidy := by
  refine ⟨hK, hdist, hapart, fun {i} hi hfile => ?_, fun {fd i pos} hent => ?_⟩
  · rw [ha.dir, not_or, not_and] at hfile
    rcases (ha.taken i).mp hi with rfl | hold
    · have hkind : isFile = true := by simpa using hfile.1 rfl
      rw [ha.emptyFile hkind]
      exact ⟨by decide, List.cons_ne_nil _ _, by simp⟩
    · rw [ha.files i hold hfile.2]
      exact ht.snug hold hfile.2
  · rw [ha.table] at hent
    rw [ha.files i (ht.ok.descriptor hent.reserved hent.refers).1 (ht.apart.table hent)]
    exact ht.inside hent

end Added

/-! ### `mkdir` and `touch` -/

/-- **A creation** does what the file system of its users does. -/
theorem Models.created (hm : I.Models fs) (ht : I.Tidy) (isFile : Bool)
    {parent : List (List UInt8)} {trailing : Bool} (hparent : ∀ c ∈ parent, IsComponent c)
    (hname : IsComponent name) (hlen : (pathOf (parent ++ [name]) trailing).length < bufferLength)
    (hroom : fs.HasRoom defaultLimits parent name) :
    (I.create isFile (pathOf (parent ++ [name]) trailing)).outcome = .done () ∧
      (I.create isFile (pathOf (parent ++ [name]) trailing)).image.Tidy ∧
      (I.create isFile (pathOf (parent ++ [name]) trailing)).image.Models
        (fs.create defaultLimits (if isFile then .file [] else .dir []) parent name) := by
  have hz : 0 ∉ pathOf (parent ++ [name]) trailing := by
    apply nul_notMem_pathOf
    intro c hc
    rcases List.mem_append.mp hc with hc | hc
    · exact hparent c hc
    · exact List.mem_singleton.mp hc ▸ hname
  unfold FileSystem.create FileSystem.HasRoom at *
  rcases hm.site ht hparent hname hlen with
    ⟨hnone, hsite⟩ | ⟨p, d, s, hdir, hp, hd, hs, hres, hsite⟩
  · -- the parent is no directory
    rw [create_eq, hsite, hnone]
    exact ⟨rfl, ht, hm⟩
  rw [hdir] at hroom ⊢
  dsimp only at hroom ⊢
  have hrel := hm.rel_find ht hp hd hs hname.nulFree
  obtain ⟨s', hs', hclean, hrecords⟩ := ht.dirSlot hd
  obtain rfl : s' = s := Option.some.inj (hs'.symm.trans hs)
  obtain ⟨inode, hget, hkind⟩ := hd.2
  rw [store_inodes] at hget
  generalize henter : fs.enter defaultLimits p name = x at hrel hroom ⊢
  generalize hfind : s'.find name = y at hrel
  cases hrel with
  | some =>
    -- the name is there
    rw [create_eq, hsite]
    simp only [createIn, hget, hs, hkind, hclean, hfind, Bool.false_eq_true, if_false,
      Option.isSome_some, if_true]
    exact ⟨rfl, ht, hm⟩
  | none =>
    obtain ⟨hcount, hnodes, hblocks⟩ := hroom.resolve_left (by simp)
    rw [hm.freeNodes] at hnodes
    rw [hm.freeBlocks] at hblocks
    obtain ⟨m, hn⟩ : ∃ m, firstFree I.sb.reservedInodesMask = some m :=
      Option.ne_none_iff_exists'.mp fun hnone => hnodes.ne' (firstFree_eq_none_iff.mp hnone)
    obtain ⟨b, hb⟩ : ∃ b, firstFree I.sb.reservedBlocksMask = some b :=
      Option.ne_none_iff_exists'.mp fun hnone => hblocks.ne' (firstFree_eq_none_iff.mp hnone)
    obtain ⟨_, b₀, s₀, _, _, _, _, _, hblock, _, hrec⟩ := ht.ok.layout.dirBlock hd
    obtain rfl : s₀ = s' := Option.some.inj ((firstSlot_eq hblock).symm.trans hs)
    have hfull : s₀.info.recordsCount ≠ 6 := by
      obtain ⟨_, named, heq, hsize, _⟩ := hrec.records_eq
      have hlist : I.store.namedRecords d = named := by
        rw [Store.namedRecords, ← hrecords, heq]
        rfl
      rw [List.length_map, hlist] at hcount
      have : named.length < 4 := hcount
      omega
    have hat : I.CreateAt (pathOf (parent ++ [name]) trailing) d name m b b₀ s₀ :=
      ⟨⟨_, splitPath_pathOf hname (Or.inl hlen), hres⟩, hd, (ht.ok.resolve_linked hres).2, hblock,
        hclean, hfind, hn, hb⟩
    have hshort : name.length < 16 := Nat.lt_of_succ_lt hname.short
    obtain ⟨hdone, himage⟩ : (I.create isFile _).outcome = .done () ∧
        (I.create isFile _).image = _ := hat.create_eq hfull hshort
    have hadded := hat.added ht.ok isFile hz hfull hshort
    have hok := (hat.link_ok ht.ok isFile hz hfull hshort).1
    have hdist := ht.ok.distinct_created isFile ⟨_, hz⟩ ht.distinct
    have hapart := ht.apart.created ht.ok isFile (pathOf (parent ++ [name]) trailing)
    rw [himage] at hdist hapart ⊢
    refine ⟨hdone, hadded.tidy ht hok hdist hapart, ?_⟩
    exact hadded.models hm ht.ok hdist hname.nulFree hp

end Image

end MiniExt
