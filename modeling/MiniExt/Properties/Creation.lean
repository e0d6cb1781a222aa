import MiniExt.Properties.Allocation

namespace MiniExt

open Lib

/-!
# Creations that fail

A creation that adds no record should leave what is stored as it was and return.  It does
so where it gives up before it stores anything, and where it gives up by returning.

* `AtomicCreate` — the property;
* `Store.CreateReturns` — the states in which it holds, read off what the creation finds;
* `atomicCreate_iff` — that these are all of them.
-/

/-- The image after a creation has a new last record, for the new name, in the directory
    the path leads to. -/
def AddsRecord (path : List UInt8) (st st' : Store) : Prop :=
  ∃ p s name n, st.site path = .done (some (p, s, name)) ∧
    st'.records p = st.records p ++ [⟨n, nameField defaultFsInfo name⟩]

/-- The masks, the reserved inodes with their blocks and the descriptor table are the same. -/
structure SamePersisted (st st' : Store) : Prop where
  superblock : st'.superblock = st.superblock
  table : st'.descriptorsTable = st.descriptorsTable
  inodes : ∀ i, st.InodeReserved i → st'.inodes i = st.inodes i
  blocks : ∀ i, st.InodeReserved i → ∀ b ∈ st.blocksOf i, st'.slots b = st.slots b

/-- A store that stays as it is persists the same. -/
theorem SamePersisted.refl (st : Store) : SamePersisted st st :=
  ⟨rfl, rfl, fun _ _ => rfl, fun _ _ _ _ => rfl⟩

/-- A creation that adds no record changes nothing that is in use, and returns. -/
def AtomicCreate (w : World) (isFile : Bool) (path : CString) : Prop :=
  let r := exec (createCommand isFile path.bytes) w
  ¬ AddsRecord path.bytes w.store r.2.store →
    SamePersisted w.store r.2.store ∧ r.1 = .done ()

/-- What a creation finds on its way: no part of the path that `split_path` or the walk
    stops at, and in the directory the name, or all it takes to add it. -/
def Store.CreateReturns (st : Store) (path : List UInt8) : Prop :=
  match st.site path with
  | .halted _ => False
  | .done none => True
  | .done (some (_, s, name)) =>
    ¬ s.Mixed ∧ ((s.find name).isSome ∨
      0 < st.freeInodes ∧ 0 < st.freeBlocks ∧ s.info.recordsCount ≠ 6 ∧ name.length < 16)

instance (st : Store) (path : List UInt8) : Decidable (st.CreateReturns path) := by
  unfold Store.CreateReturns
  generalize st.site path = o
  rcases o with (_ | ⟨_, _, _⟩) | _ <;> infer_instance

namespace Image

variable {I : Image} {isFile : Bool} {path : List UInt8}

/-- The property, of a creation on an image. -/
def AtomicEnd (I : Image) (path : List UInt8) (e : CreateEnd) : Prop :=
  ¬ AddsRecord path I.store e.image.store →
    SamePersisted I.store e.image.store ∧ e.outcome = .done ()

/-- No record is added where no records change. -/
theorem not_addsRecord {J : Image}
    (hrec : ∀ p s name, I.store.site path = .done (some (p, s, name)) →
      J.store.records p = I.store.records p) : ¬ AddsRecord path I.store J.store := by
  rintro ⟨p, s, name, n, hsite, heq⟩
  rw [hrec p s name hsite] at heq
  simpa using congrArg List.length heq

/-- A creation that changes nothing is atomic when it returns. -/
theorem atomicEnd_unchanged (o : Outcome Stop Unit) :
    AtomicEnd I path (I.unchanged o) ↔ o = .done () :=
  ⟨fun h => (h (not_addsRecord fun _ _ _ _ => rfl)).2, fun ho _ => ⟨SamePersisted.refl _, ho⟩⟩

/-- A creation that leaves its inode behind is not atomic, whether it returns or not. -/
theorem CreateAt.not_atomicEnd {p n b b₀ : Nat} {name : List UInt8} {s : Slot}
    (hat : I.CreateAt path p name n b b₀ s) (h : I.Ok) (o : Outcome Stop Unit) (t : List Image) :
    ¬ AtomicEnd I path ⟨o, I.alloc isFile p n b, t⟩ := by
  intro hatomic
  obtain ⟨hnlt, hnfree, _⟩ := firstFree_eq_some_iff.mp hat.inodeFree
  obtain ⟨_, hrec, _⟩ := h.alloc_tree isFile p hat.inodeFree hat.blockFree
  have hsame := (hatomic (not_addsRecord fun p' s' name' hsite => ?_)).1
  · have hsb : (I.alloc isFile p n b).sb = I.sb := Option.some.inj hsame.superblock
    apply hnfree
    rw [← hsb]
    exact (taken_set hnlt).mpr (Or.inl rfl)
  · exact hrec p' (h.site_dir hsite).1

/-- **Creations that are atomic**, on an image. -/
theorem Ok.atomicEnd_iff (h : I.Ok) (hz : 0 ∉ path) :
    AtomicEnd I path (I.create isFile path) ↔ I.store.CreateReturns path := by
  rw [create_eq, Store.CreateReturns]
  rcases hsite : I.store.site path with (_ | ⟨p, s, name⟩) | e
  · simp [atomicEnd_unchanged]
  · obtain ⟨parentPath, inode, hsplit, hres, hget, hkind, hs⟩ := Store.site_eq_iff.mp hsite
    obtain ⟨hd, hl, b₀, hblock⟩ := h.site_dir hsite
    rw [store_inodes] at hget
    simp only [createIn, hget, hs, hkind, Bool.false_eq_true, if_false]
    by_cases hmixed : s.Mixed
    · simp [hmixed, atomicEnd_unchanged]
    rcases hfind : s.find name with _ | i
    · have hfreeI : I.store.freeInodes = free I.sb.reservedInodesMask := rfl
      have hfreeB : I.store.freeBlocks = free I.sb.reservedBlocksMask := rfl
      -- where nothing is free nothing changes
      rcases hn : firstFree I.sb.reservedInodesMask with _ | n
      · simp [hmixed, atomicEnd_unchanged, hfreeI, firstFree_eq_none_iff.mp hn]
      rcases hb : firstFree I.sb.reservedBlocksMask with _ | b
      · simp [hmixed, atomicEnd_unchanged, hfreeB, firstFree_eq_none_iff.mp hb]
      have hat : I.CreateAt path p name n b b₀ s :=
        ⟨⟨parentPath, hsplit, hres⟩, hd, hl, hblock, hmixed, hfind, hn, hb⟩
      simp only [hmixed, not_false_eq_true, Option.isSome_none, Bool.false_eq_true, if_false,
        false_or, true_and]
      -- the inode and the block are taken before the record is tried
      by_cases hfull : s.info.recordsCount = 6
      · rw [if_pos hfull]
        exact iff_of_false (hat.not_atomicEnd h _ _) fun hok => hok.2.2.1 hfull
      rw [if_neg hfull]
      by_cases hlong : 16 ≤ name.length
      · rw [if_pos hlong]
        exact iff_of_false (hat.not_atomicEnd h _ _) fun hok => by omega
      rw [if_neg hlong]
      have hshort : name.length < 16 := Nat.not_le.mp hlong
      obtain ⟨_, _, _, hadded⟩ := hat.link_ok h isFile hz hfull hshort
      exact iff_of_true (fun hnot => absurd ⟨p, s, name, n, hsite, hadded⟩ hnot)
        ⟨free_pos_of_firstFree hn, free_pos_of_firstFree hb, hfull, hshort⟩
    · simp [hmixed, atomicEnd_unchanged]
  · simp [atomicEnd_unchanged]

end Image

/-- **Failed creations.**  In every reachable image, a creation is atomic exactly when the
    path can be split and walked, the directory it leads to can be read, and the name is
    there already or there is everything it takes to add it. -/
theorem atomicCreate_iff {w : World} (hw : Reachable w) (isFile : Bool) (path : CString) :
    AtomicCreate w isFile path ↔ w.store.CreateReturns path.bytes := by
  obtain ⟨I, hI, hstore⟩ := hw.image
  rw [hstore, AtomicCreate, hI.exec_create]
  exact hI.atomicEnd_iff path.nulFree

/-- A creation in a fresh image. -/
theorem atomicCreate_init :
    AtomicCreate ((World.mk .blank .onlyImage).step .init) true pathF :=
  (atomicCreate_iff (Reachable.init _) true pathF).mpr (by decide +kernel)

/-- An image whose root directory is full. -/
def crowdedWorld : World :=
  ((World.mk .blank .onlyImage).step .init).steps
    [.touch ⟨[47, 97], by decide⟩, .touch ⟨[47, 98], by decide⟩, .touch ⟨[47, 99], by decide⟩,
      .touch ⟨[47, 100], by decide⟩]

/-- The image with the full root is reached. -/
theorem reachable_crowdedWorld : Reachable crowdedWorld := by
  unfold crowdedWorld
  exact (Reachable.init _).steps _ (by decide)

/-- A creation in the root directory that changes the superblock but no record there. -/
theorem not_atomicCreate_of_root {w : World} {isFile : Bool} {path : CString}
    (hroot : (match w.store.site path.bytes with
      | .done (some (p, _, _)) => some p
      | _ => none) = some 0)
    (hrec : (exec (createCommand isFile path.bytes) w).2.store.records 0 = w.store.records 0)
    (hsb : (exec (createCommand isFile path.bytes) w).2.store.superblock ≠ w.store.superblock) :
    ¬ AtomicCreate w isFile path := by
  intro hatomic
  refine hsb (hatomic ?_).1.superblock
  rintro ⟨p, s, name, n, hsite, heq⟩
  rw [hsite] at hroot
  obtain rfl : p = 0 := Option.some.inj hroot
  rw [hrec] at heq
  simpa using congrArg List.length heq

/-- A file that finds no room in the full root directory: `create_file` returns, and leaves
    an inode and a block reserved. -/
theorem crowdedWorld_not_atomic : Reachable crowdedWorld ∧
    (exec (createFile pathF.bytes) crowdedWorld).1 = .done () ∧
    ¬ AtomicCreate crowdedWorld true pathF :=
  ⟨reachable_crowdedWorld, by decide +kernel,
    not_atomicCreate_of_root (by decide +kernel) (by decide +kernel) (by decide +kernel)⟩

end MiniExt
