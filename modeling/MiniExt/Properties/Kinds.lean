import MiniExt.Properties.Creation
import MiniExt.Runs.Frames

namespace MiniExt

open Lib

/-!
# Files and directories

A block holds records or data, and which of them is up to the inode that lists it.  The
descriptors do not know the kind of their inode, and `open` does not ask for it: a write to
a directory that was opened leaves a block that nothing can read.

* `Store.Separated` — the property;
* `Store.OpensDir` — the step that breaks it;
* `files_and_directories_apart` — the runs without that step.
-/

/-- Descriptors refer to files, and no block mixes records and data. -/
structure Store.Separated (st : Store) : Prop where
  descriptors : ∀ {fd i p}, st.Descriptor fd i p → st.IsFile i
  directories : ∀ {d}, st.IsDir d → ∃ s r r' named, st.firstSlot d = some s ∧
    2 ≤ s.info.recordsCount ∧ s.records = r :: r' :: named ∧
    r.path = nameField defaultFsInfo dotName ∧ r'.path = nameField defaultFsInfo twoDotsName ∧
    s.info.dataSize = 0
  files : ∀ {i}, st.IsFile i → ∀ b ∈ st.blocksOf i,
    ∃ s, st.slots b = some s ∧ s.info.recordsCount = 0
  readable : ∀ {i}, st.InodeReserved i → ∀ b ∈ st.blocksOf i, ∃ s, st.slots b = some s ∧ ¬ s.Mixed

/-- The path names a directory, and there is a descriptor for it. -/
def Store.OpensDir (st : Store) (path : List UInt8) : Prop :=
  match st.target path, st.descriptorsTable with
  | some i, some dt => st.HasKind false i ∧ (reserveDescriptor dt i).isSome
  | _, _ => False

instance (st : Store) (path : List UInt8) : Decidable (st.OpensDir path) := by
  unfold Store.OpensDir
  split <;> infer_instance

/-- The commands that reserve a descriptor for a directory. -/
def OpensDir (w : World) : Command → Prop
  | .open path => w.store.OpensDir path.bytes
  | _ => False

namespace Image

/-- No descriptor refers to a directory, and no directory block counts data. -/
structure Apart (I : Image) : Prop where
  table : ∀ {fd i p}, I.dt.Entry fd i p → ¬ I.store.IsDir i
  clean : ∀ {d s}, I.store.IsDir d → I.store.firstSlot d = some s → s.info.dataSize = 0

variable {I J : Image}

/-- A reserved inode is a file or a directory. -/
theorem Ok.isFile_of_not_isDir (h : I.Ok) {i : Nat} (hi : Taken I.sb.reservedInodesMask i)
    (hdir : ¬ I.store.IsDir i) : I.store.IsFile i := by
  obtain ⟨inode, hget, _⟩ := h.layout.inode hi
  refine ⟨hi, inode, hget, ?_⟩
  by_contra hkind
  exact hdir ⟨hi, inode, hget, by simpa using hkind⟩

/-- The property, from the two facts that runs preserve. -/
theorem Ok.separated (h : I.Ok) (ha : I.Apart) : I.store.Separated := by
  have hmem : ∀ {i inode b}, I.inodes i = some inode → b ∈ I.store.blocksOf i → b ∈ inode.blocks :=
    fun hget hb => by simpa only [Store.blocksOf, store_inodes, hget] using hb
  refine ⟨fun hent => ?_, fun {d} hd => ?_, fun {i} hi b hb => ?_, fun {i} hi b hb => ?_⟩
  · have hent := descriptor_iff.mp hent
    exact h.isFile_of_not_isDir (h.descriptor hent.reserved hent.refers).1 (ha.table hent)
  · obtain ⟨_, _, s, _, _, _, _, _, hblock, _, hrec⟩ := h.layout.dirBlock hd
    obtain ⟨parent, named, heq, hcount, _⟩ := hrec.records_eq
    exact ⟨s, _, _, named, firstSlot_eq hblock, by omega, heq, rfl, rfl,
      ha.clean hd (firstSlot_eq hblock)⟩
  · obtain ⟨hi, inode, hget, hkind⟩ := hi
    have hok := h.layout.inodeOk hi hget
    obtain ⟨k, hk, hbk⟩ := mem_blocks.mp (hmem hget hb)
    obtain ⟨_, s, hs, hh⟩ := hok.block hk hbk
    rw [hkind] at hh
    exact ⟨s, hs, hh.isData.1⟩
  · obtain ⟨inode, hget, hok⟩ := h.layout.inode hi
    obtain ⟨k, hk, hbk⟩ := mem_blocks.mp (hmem hget hb)
    obtain ⟨_, s, hs, hh⟩ := hok.block hk hbk
    refine ⟨s, hs, ?_⟩
    by_cases hfirst : k = 0 ∧ inode.isFile = false
    · -- the first block of a directory
      obtain ⟨rfl, hkind⟩ := hfirst
      exact fun hmixed => hmixed.2
        (ha.clean ⟨hi, inode, hget, hkind⟩ (firstSlot_eq (block_eq hget hbk hs)))
    · have hbody := hh.body
      rw [if_neg hfirst] at hbody
      exact hbody.not_mixed

/-- In a new image files and directories are apart. -/
theorem apart_formatted : formatted.Apart where
  table hent := absurd hent entry_formatted
  clean {d s} hd hs := by
    rw [taken_formatted.1.mp hd.1, firstSlot_eq block_formatted] at hs
    cases hs
    rfl

/-- A change of the table alone. -/
theorem Apart.setTable (ha : I.Apart) {dt : DescriptorsTable}
    (hdt : ∀ {fd i p}, dt.Entry fd i p → ¬ I.store.IsDir i) : (I.setTable dt).Apart :=
  ⟨hdt, ha.clean⟩

/-- A moved position keeps them apart. -/
theorem Apart.movedAt (ha : I.Apart) {fd : Nat} {dt : DescriptorsTable} (h : I.dt.MovedAt fd dt) :
    (I.setTable dt).Apart :=
  ha.setTable fun hent =>
    let ⟨_, hold⟩ := (h.entry hent).1
    ha.table hold

/-- **A write** to a file. -/
theorem Apart.written (ha : I.Apart) (h : I.Ok) (fd : Nat) (data : List UInt8) :
    (I.written fd data).Apart := by
  have hdir := (h.sameTree_written fd data).dir
  refine ⟨fun hent => ?_, fun {d s} hd hs => ?_⟩
  · rw [hdir]
    obtain ⟨_, hold⟩ := ((h.movedAt_written fd data).entry hent).1
    exact ha.table hold
  · rw [hdir] at hd
    have hsame := h.sameInode_written fd data hd.1 fun p hent => ha.table hent hd
    rw [hsame.firstSlot h hd.1] at hs
    exact ha.clean hd hs

/-- **A creation** adds a directory without data, or none. -/
theorem Apart.created (ha : I.Apart) (h : I.Ok) (isFile : Bool) (path : List UInt8) :
    (I.create isFile path).image.Apart := by
  have hdt := h.create_dt isFile path
  have hrun := h.createRun isFile path
  generalize I.create isFile path = e at hrun hdt
  -- the directories of the image with the new inode
  have halloc : ∀ {p n b b₀ : Nat} {name : List UInt8} {s : Slot},
      I.CreateAt path p name n b b₀ s → (I.alloc isFile p n b).Apart := by
    intro p n b b₀ name s hat
    obtain ⟨hdir, _, _⟩ := h.alloc_tree isFile p hat.inodeFree hat.blockFree
    obtain ⟨_, hnfree, _⟩ := firstFree_eq_some_iff.mp hat.inodeFree
    refine ⟨fun {fd i q} hent hd => ?_, fun {d t} hd ht => ?_⟩
    · rcases (hdir i).mp hd with ⟨rfl, _⟩ | hd
      · exact hnfree (h.descriptor hent.reserved hent.refers).1
      · exact ha.table hent hd
    · rcases (hdir d).mp hd with ⟨rfl, hfile⟩ | hd
      · have hnew : (I.alloc isFile p d b).block d 0 = some (b, I.freshSlot isFile p d b) :=
          block_eq (setInode_inodes_self _ (freshInode isFile d b)) rfl (setSlot_slots_self I b _)
        rw [firstSlot_eq hnew] at ht
        cases ht
        rw [hfile]
        rfl
      · rw [(hat.sameInode_alloc h isFile hd.1).firstSlot h hd.1] at ht
        exact ha.clean hd ht
  cases hrun with
  | unchanged o => exact ha
  | leaked o hat hfull => exact halloc hat
  | @linked p n b b₀ name s hat hroom hshort =>
    have hJ := halloc hat
    have hlink := hat.link_eq h isFile ⟨n, nameField defaultFsInfo name⟩
    refine ⟨fun hent => ?_, fun {d t} hd ht => ?_⟩
    · rw [hlink] at hent ⊢
      exact hJ.table hent
    have hdJ : (I.alloc isFile p n b).store.IsDir d := by
      rw [hlink] at hd
      exact hd
    by_cases hdp : d = p
    · -- the directory of the new name
      subst hdp
      obtain ⟨inode, hget, hb, _⟩ := block_cases (hat.block_alloc h isFile)
      have hzero : s.info.dataSize = 0 := hJ.clean hdJ (firstSlot_eq (hat.block_alloc h isFile))
      have hnew : ∀ t', ((I.alloc isFile d n b).setSlot b₀ t').block d 0 = some (b₀, t') :=
        fun t' => block_eq (I := (I.alloc isFile d n b).setSlot b₀ t') hget hb
          (setSlot_slots_self _ b₀ t')
      rw [hlink, firstSlot_eq (hnew _)] at ht
      cases ht
      exact hzero
    · rw [(hat.sameInode_link h isFile _ hdJ.1 hdp).firstSlot (hat.alloc_ok h isFile) hdJ.1] at ht
      exact hJ.clean hdJ ht

/-- A command that changes nothing but the table reserves no descriptor for a directory. -/
theorem Apart.tableOnly (ha : I.Apart) (h : I.Ok) (F : HostFiles) {c : Command}
    (hc : c.TableOnly) (hok : ¬ OpensDir ⟨I.store, F⟩ c) : (I.after F c).Apart := by
  rw [h.after_tableOnly F hc]
  cases c with
  | readFs => exact ha
  | ls path => exact ha
  | «open» path =>
    rcases h.openPath_cases path.bytes with ⟨heq, _⟩ | ⟨i, fd, dt, heq, htarget, hl, hdt⟩
    · rw [Image.after, heq]
      exact ha
    · rw [Image.after, heq]
      refine ha.setTable fun {fd' j p} hent hdir => ?_
      rcases entry_reserveDescriptor hdt hent with ⟨_, rfl, _⟩ | ⟨_, hold⟩
      · apply hok
        simp only [OpensDir, Store.OpensDir, htarget, store_descriptorsTable, hdt,
          Option.isSome_some, and_true]
        exact hdir.2
      · exact ha.table hold hdir
  | close fd =>
    simp only [Image.after, closeFd]
    split
    · exact ha.setTable fun hent => ha.table (entry_freeDescriptor.mp hent).2
    · exact ha
  | read fd size => exact ha.movedAt (I.movedAt_read fd size _)
  | readTo fd path size => exact ha.movedAt (I.movedAt_read fd _ _)
  | lseek fd pos => exact ha.movedAt (I.movedAt_seek fd pos)
  | _ => exact hc.elim

/-- **Every command that opens no directory** keeps files and directories apart. -/
theorem Apart.after (ha : I.Apart) (h : I.Ok) (F : HostFiles) (c : Command)
    (hok : ¬ OpensDir ⟨I.store, F⟩ c) : (I.after F c).Apart := by
  by_cases htable : c.TableOnly
  · exact ha.tableOnly h F htable hok
  cases c with
  | init => exact apart_formatted
  | mkdir path => exact ha.created h false path.bytes
  | touch path => exact ha.created h true path.bytes
  | write fd data => exact ha.written h fd data
  | writeFrom fd path =>
    simp only [Image.after]
    split
    · exact ha.written h fd _
    · exact ha
  | _ => exact absurd trivial htable

end Image

/-- **Files and directories stay apart** in every run that opens no directory and writes no host
    file onto the image. -/
theorem files_and_directories_apart {w : World}
    (hw : ReachableBy (fun w c => ¬ OpensDir w c ∧ ¬ c.OntoImage w.files) w) :
    w.store.Separated := by
  obtain ⟨I, hI, ha, hstore⟩ := hw.image Image.Apart Image.apart_formatted
    fun I F c h ha hok => ha.after h F c hok.1
  rw [hstore]
  exact hI.separated ha

/-- A file is created and opened. -/
theorem separated_openedFile :
    ((((World.mk .blank .onlyImage).step .init).step (.touch pathF)).step
      (.open pathF)).store.Separated :=
  files_and_directories_apart (.step _ (.step _ (.init _) ⟨id, id⟩)
    ⟨show ¬ (((World.mk .blank .onlyImage).step .init).step (.touch pathF)).store.OpensDir
      pathF.bytes by decide +kernel, id⟩)

/-- An image with an open directory, after a write to it. -/
def mixedWorld : World :=
  ((World.mk .blank .onlyImage).step .init).steps [.mkdir pathF, .open pathF, .write 0 [1]]

/-- The image with the mixed block is reached. -/
theorem reachable_mixedWorld : Reachable mixedWorld := by
  unfold mixedWorld
  exact (Reachable.init _).steps _ (by decide)

/-- A block that mixes records and data, of a reserved inode. -/
theorem Store.not_separated {st : Store} {i b : Nat} {s : Slot} (hi : st.InodeReserved i)
    (hb : b ∈ st.blocksOf i) (hs : st.slots b = some s) (hmixed : s.Mixed) : ¬ st.Separated := by
  intro h
  obtain ⟨s', hs', hclean⟩ := h.readable hi b hb
  rw [hs] at hs'
  cases hs'
  exact hclean hmixed

/-- `open` hands out a descriptor for the directory, and the write leaves it unreadable. -/
theorem mixedWorld_not_separated : Reachable mixedWorld ∧ ¬ mixedWorld.store.Separated :=
  ⟨reachable_mixedWorld, Store.not_separated (i := 1) (b := 1)
    (s := ⟨⟨1, 1, 2, 1⟩, .records [⟨1, nameField defaultFsInfo dotName⟩,
      ⟨0, nameField defaultFsInfo twoDotsName⟩]⟩) (by decide +kernel) (by decide +kernel)
    (by decide +kernel) (by decide)⟩

end MiniExt
