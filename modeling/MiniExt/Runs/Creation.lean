import MiniExt.Runs.Create

namespace MiniExt

open Lib

/-!
# What a creation does

`Image.create` changes nothing, or it gets as far as storing a new inode.  From there on it
either adds the record of the new name, or ends without it and leaves the inode behind.

* `CreateAt` — the point where the new inode is stored;
* `CreateRun` — the three ways a creation ends, and `createRun`, that there are no others;
* `CreateRun.ok`, `CreateRun.trace_ok` — the invariant holds at the end and on the way.
-/

namespace Image

variable {I : Image} {isFile : Bool} {path : List UInt8}

/-- A creation that stores inode `n` with block `b`: the parent is directory `p`, its first
    block is `s` in slot `b₀`, and `name` is new there. -/
structure CreateAt (I : Image) (path : List UInt8) (p : Nat) (name : List UInt8) (n b b₀ : Nat)
    (s : Slot) : Prop where
  split : ∃ parentPath, splitPath path = .done (some (parentPath, name)) ∧
    I.store.resolve parentPath = .done (some p)
  dir : I.store.IsDir p
  linked : I.store.tree.Linked rootInodeId p
  block : I.block p 0 = some (b₀, s)
  clean : ¬ s.Mixed
  absent : s.find name = none
  inodeFree : firstFree I.sb.reservedInodesMask = some n
  blockFree : firstFree I.sb.reservedBlocksMask = some b

/-- The ways a creation ends. -/
inductive CreateRun (I : Image) (isFile : Bool) (path : List UInt8) : CreateEnd → Prop where
  /-- Nothing is stored. -/
  | unchanged (o : Outcome Stop Unit) : CreateRun I isFile path (I.unchanged o)
  /-- The inode is stored, but the directory has no room for its record, or the name no
      room in a record. -/
  | leaked {p n b b₀ : Nat} {name : List UInt8} {s : Slot} (o : Outcome Stop Unit)
    (hat : I.CreateAt path p name n b b₀ s)
    (hfull : s.info.recordsCount = 6 ∨ 16 ≤ name.length) :
    CreateRun I isFile path ⟨o, I.alloc isFile p n b, I.allocTrace isFile p n b⟩
  /-- The record is added. -/
  | linked {p n b b₀ : Nat} {name : List UInt8} {s : Slot}
    (hat : I.CreateAt path p name n b b₀ s) (hroom : s.info.recordsCount ≠ 6)
    (hshort : name.length < 16) :
    CreateRun I isFile path
      ⟨.done (), (I.alloc isFile p n b).link p ⟨n, nameField defaultFsInfo name⟩,
        I.allocTrace isFile p n b ++
          [(I.alloc isFile p n b).link p ⟨n, nameField defaultFsInfo name⟩]⟩

/-- **Every creation** ends in one of these ways. -/
theorem Ok.createRun (h : I.Ok) (isFile : Bool) (path : List UInt8) :
    CreateRun I isFile path (I.create isFile path) := by
  unfold create
  split
  · exact .unchanged _
  · exact .unchanged _
  rename_i parentPath name hsplit
  split
  · exact .unchanged _
  · exact .unchanged _
  rename_i p hres
  obtain ⟨hp, hl⟩ := h.resolve_linked hres
  unfold createIn
  split
  · rename_i inode s hget hfirst
    split
    · exact .unchanged _
    rename_i hkind
    split
    · exact .unchanged _
    rename_i hclean
    split
    · exact .unchanged _
    rename_i habsent
    split
    · -- both are free, so the helper has created something
      rename_i n b hn hb
      have hd : I.store.IsDir p := ⟨hp, inode, hget, by simpa using hkind⟩
      obtain ⟨_, b₀, s', _, _, _, _, _, hblock, _, _⟩ := h.layout.dirBlock hd
      rw [firstSlot_eq hblock] at hfirst
      cases hfirst
      have hat : I.CreateAt path p name n b b₀ s :=
        ⟨⟨parentPath, hsplit, hres⟩, hd, hl, hblock, hclean, by simpa using habsent, hn, hb⟩
      simp only
      split
      · exact .leaked _ hat (Or.inl (by assumption))
      split
      · exact .leaked _ hat (Or.inr (by assumption))
      · exact .linked hat (by assumption) (by omega)
    · exact .unchanged _
  · exact .unchanged _

/-- A new name is not one of the two every directory has. -/
theorem CreateAt.name_ne {p n b b₀ : Nat} {name : List UInt8} {s : Slot}
    (hat : I.CreateAt path p name n b b₀ s) (h : I.Ok) :
    name ≠ dotName ∧ name ≠ twoDotsName := by
  obtain ⟨_, _, s', _, _, _, _, _, hblock, _, hrec⟩ := h.layout.dirBlock hat.dir
  rw [hat.block] at hblock
  cases hblock
  obtain ⟨parent, named, heq, _⟩ := hrec.records_eq
  have habsent := hat.absent
  rw [Slot.find, heq, Option.map_eq_none_iff] at habsent
  have hne := List.find?_eq_none.mp habsent
  constructor
  · rintro rfl
    exact hne _ (List.mem_cons_self ..) (by simp)
  · rintro rfl
    exact hne _ (List.mem_cons_of_mem _ (List.mem_cons_self ..)) (by simp)

section At

variable {p n b b₀ : Nat} {name : List UInt8} {s : Slot}

/-- Where the creation works. -/
theorem CreateAt.site (hat : I.CreateAt path p name n b b₀ s) :
    I.store.site path = .done (some (p, s, name)) := by
  obtain ⟨parentPath, hsplit, hres⟩ := hat.split
  obtain ⟨inode, hget, hkind⟩ := hat.dir.2
  exact Store.site_eq_iff.mpr
    ⟨parentPath, inode, hsplit, hres, hget, hkind, firstSlot_eq hat.block⟩

/-- The image with the new inode. -/
theorem CreateAt.alloc_ok (hat : I.CreateAt path p name n b b₀ s) (h : I.Ok) (isFile : Bool) :
    (I.alloc isFile p n b).Ok :=
  h.alloc hat.dir hat.inodeFree hat.blockFree

/-- The new inode leaves the block of the directory alone. -/
theorem CreateAt.block_alloc (hat : I.CreateAt path p name n b b₀ s) (h : I.Ok) (isFile : Bool) :
    (I.alloc isFile p n b).block p 0 = some (b₀, s) := by
  obtain ⟨hinodes, hslots⟩ := Ok.alloc_frame isFile p hat.inodeFree hat.blockFree
  obtain ⟨inode, _, _, hget, _, hok, hb₀, hs, hblock, _, _⟩ := h.layout.dirBlock hat.dir
  rw [hat.block] at hblock
  cases hblock
  exact block_eq ((hinodes p hat.dir.1).trans hget) hb₀
    ((hslots b₀ (hok.block hok.count_pos hb₀).1).trans hs)

/-- The record goes into that block. -/
theorem CreateAt.link_eq (hat : I.CreateAt path p name n b b₀ s) (h : I.Ok) (isFile : Bool)
    (r : BlockRecord) :
    (I.alloc isFile p n b).link p r = (I.alloc isFile p n b).setSlot b₀
      ⟨{ s.info with recordsCount := s.info.recordsCount + 1 }, .records (s.records ++ [r])⟩ := by
  rw [link, hat.block_alloc h isFile]

/-- The image with the new record. -/
theorem CreateAt.link_ok (hat : I.CreateAt path p name n b b₀ s) (h : I.Ok) (isFile : Bool)
    (hz : 0 ∉ path) (hroom : s.info.recordsCount ≠ 6) (hshort : name.length < 16) :
    ((I.alloc isFile p n b).link p ⟨n, nameField defaultFsInfo name⟩).Ok ∧
      ((I.alloc isFile p n b).link p ⟨n, nameField defaultFsInfo name⟩).store.tree.Named n ∧
      (∀ i, (I.alloc isFile p n b).store.tree.Named i →
        ((I.alloc isFile p n b).link p ⟨n, nameField defaultFsInfo name⟩).store.tree.Named i) ∧
      ((I.alloc isFile p n b).link p ⟨n, nameField defaultFsInfo name⟩).store.records p =
        I.store.records p ++ [⟨n, nameField defaultFsInfo name⟩] := by
  obtain ⟨parentPath, hsplit, _⟩ := hat.split
  obtain ⟨hdir, hrec, hnew⟩ := h.alloc_tree isFile p hat.inodeFree hat.blockFree
  obtain ⟨hnlt, hnfree, _⟩ := firstFree_eq_some_iff.mp hat.inodeFree
  have hlinkedJ : (I.alloc isFile p n b).store.tree.Linked rootInodeId p :=
    hat.linked.imp id fun hnamed => h.alloc_named hat.inodeFree hat.blockFree hnamed
  have hnroot : n ≠ rootInodeId := fun heq => hnfree (heq ▸ h.root_reserved)
  rw [← hrec p hat.dir]
  refine (hat.alloc_ok h isFile).link ((hdir p).mpr (Or.inr hat.dir)) hlinkedJ
    (hat.block_alloc h isFile) hroom rfl
    ⟨name, rfl, hshort, (splitPath_done hz hsplit).2, hat.name_ne h⟩ ?_ hnroot
    (h.alloc_not_named hat.inodeFree hat.blockFree) fun hd => ?_
  · exact (taken_set hnlt).mpr (Or.inl rfl)
  · rcases (hdir n).mp hd with ⟨_, hfile⟩ | hd
    · exact (hnew hfile).1
    · exact absurd hd.1 hnfree

end At

/-- **A creation keeps the invariant.** -/
theorem CreateRun.ok {e : CreateEnd} (hrun : CreateRun I isFile path e) (h : I.Ok)
    (hz : 0 ∉ path) : e.image.Ok := by
  cases hrun with
  | unchanged o => exact h
  | leaked o hat hfull => exact hat.alloc_ok h isFile
  | linked hat hroom hshort => exact (hat.link_ok h isFile hz hroom hshort).1

/-- **Every image on the way** keeps it too. -/
theorem CreateRun.trace_ok {e : CreateEnd} (hrun : CreateRun I isFile path e) (h : I.Ok)
    (hz : 0 ∉ path) : ∀ J ∈ e.trace, J.Ok := by
  cases hrun with
  | unchanged o => exact fun _ hJ => absurd hJ List.not_mem_nil
  | leaked o hat hfull => exact h.allocTrace hat.dir hat.inodeFree hat.blockFree
  | linked hat hroom hshort =>
    intro J hJ
    rcases List.mem_append.mp hJ with hJ | hJ
    · exact h.allocTrace hat.dir hat.inodeFree hat.blockFree J hJ
    · rw [List.mem_singleton.mp hJ]
      exact (hat.link_ok h isFile hz hroom hshort).1

end Image

end MiniExt
