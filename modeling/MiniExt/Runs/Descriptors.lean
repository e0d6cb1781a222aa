import MiniExt.Runs.Create

namespace MiniExt

open Lib

/-!
# Runs of `open`, `close` and `lseek`

The commands on the descriptor table compute `Image.openPath`, `Image.closeFd` and
`Image.seek`, and keep the invariant.
-/

variable {I : Image} {F : HostFiles} {T : List Store}

/-- Leaving releases the table, the superblock and the image. -/
@[simp] theorem run_leaveTable {S : Store} :
    leaveTable.run hostHandler ⟨S, F, [.descriptorsTable, .superblock, .image], T⟩ =
      (.done (), ⟨S, F, [], T⟩) := by
  simp [leaveTable, Prog.run_bind]

namespace Image.Ok

/-- On an image a command starts with its superblock and its table. -/
theorem run_enterTable (h : I.Ok) :
    enterTable.run hostHandler ⟨I.store, F, [], T⟩ =
      (.done (I.sb, I.dt),
        ⟨I.store, F, [.descriptorsTable, .superblock, .image], T⟩) := by
  have hread := run_readDescriptorsTable (S := I.store) (B := I.sb) (F := F)
    (L := [.superblock, .image]) (T := T) rfl h.layout.geometry (by simp) (by simp)
  simp [enterTable, Prog.run_bind, h.run_enter, hread]

/-- The table is stored. -/
theorem run_storeTable (h : I.Ok) (dt : DescriptorsTable) :
    (storeTable I.sb dt).run hostHandler
        ⟨I.store, F, [.descriptorsTable, .superblock, .image], T⟩ =
      (.done (), ⟨(I.setTable dt).store, F, [.descriptorsTable, .superblock, .image],
        (I.setTable dt).store :: T⟩) := by
  have hwrite := run_writeDescriptorTable (S := I.store) (B := I.sb) (F := F)
    (L := [.descriptorsTable, .superblock, .image]) (T := T) dt h.layout.geometry (by simp)
    (by simp) (by simp)
  simp [storeTable, Prog.run_bind, hwrite]
  rfl

/-- A slot of the table exists exactly below `descriptors_count`. -/
theorem reservedFd_none_iff (h : I.Ok) {fd : Nat} : I.dt.reservedFd[fd]? = none ↔ 16 ≤ fd := by
  rw [List.getElem?_eq_none_iff, h.table.fdLength]

/-! ### `close` -/

/-- **`close_file`** computes `Image.closeFd`. -/
theorem run_closeFile (h : I.Ok) (fd : Nat) :
    ∃ L' T', (closeFile fd).run hostHandler ⟨I.store, F, [], []⟩ =
      ((I.closeFd fd).1, ⟨(I.closeFd fd).2.store, F, L', T'⟩) := by
  simp only [closeFile, Prog.run_bind, h.run_enterTable, follow_done, run_use, List.mem_cons,
    true_or, closeFd]
  by_cases hfd : fd < 16
  · obtain ⟨r, hr⟩ : ∃ r, I.dt.reservedFd[fd]? = some r :=
      Option.ne_none_iff_exists'.mp fun hn => by
        have := h.reservedFd_none_iff.mp hn
        omega
    refine ⟨[], [(I.setTable (MiniExt.freeDescriptor I.dt fd)).store], ?_⟩
    simp only [run_index_some hr, follow_done, h.run_storeTable, run_leaveTable, if_pos hfd]
  · have hr := h.reservedFd_none_iff.mpr (by omega : 16 ≤ fd)
    refine ⟨[.descriptorsTable, .superblock, .image], [], ?_⟩
    simp only [run_index_none hr, follow_halted, if_neg hfd]

/-- A close keeps the invariant. -/
theorem closeFd_ok (h : I.Ok) (fd : Nat) : (I.closeFd fd).2.Ok := by
  unfold closeFd
  split
  · exact h.freeDescriptor
  · exact h

/-! ### `lseek` -/

/-- **`lseek_pos`** computes `Image.seek`. -/
theorem run_lseekPos (h : I.Ok) (fd pos : Nat) :
    ∃ L' T', (lseekPos fd pos).run hostHandler ⟨I.store, F, [], []⟩ =
      ((I.seek fd pos).1, ⟨(I.seek fd pos).2.store, F, L', T'⟩) := by
  simp only [lseekPos, Prog.run_bind, h.run_enterTable, follow_done, run_use, List.mem_cons,
    true_or, seek]
  rcases hr : I.dt.reservedFd[fd]? with _ | reserved
  · refine ⟨[.descriptorsTable, .superblock, .image], [], ?_⟩
    simp only [run_index_none hr, follow_halted]
  · simp only [run_index_some hr, follow_done]
    cases reserved
    · refine ⟨[.image], [], ?_⟩
      simp [Prog.run_bind]
    · simp only [h.layout.geometry, getMaxDataSizeOfAllBlocks_default, Bool.not_true,
        Bool.false_eq_true, if_false]
      by_cases hpos : 968 ≤ pos
      · refine ⟨[.image], [], ?_⟩
        simp [hpos, Prog.run_bind]
      · refine ⟨[], [(I.setPosition fd pos).store], ?_⟩
        simp only [if_neg hpos, Prog.run_bind, h.run_storeTable, follow_done, run_leaveTable]
        rfl

/-- A seek keeps the invariant. -/
theorem seek_ok (h : I.Ok) (fd pos : Nat) : (I.seek fd pos).2.Ok := by
  unfold seek
  split
  · exact h
  · exact h
  · split
    · exact h
    · exact h.setPosition fun _ inode _ _ => by omega

/-! ### `open` -/

/-- **`open_file`** computes `Image.openPath`. -/
theorem run_openFile (h : I.Ok) (path : List UInt8) (hz : 0 ∉ path) :
    ∃ L' T', (openFile path).run hostHandler ⟨I.store, F, [], []⟩ =
      ((I.openPath path).1, ⟨(I.openPath path).2.store, F, L', T'⟩) := by
  have hg := h.layout.geometry
  simp only [openFile, Prog.run_bind, h.run_enter, follow_done, Prog.run_ofOutcome]
  rcases hsplit : splitPath path with (_ | ⟨parentPath, name⟩) | e
  · refine ⟨[], [], ?_⟩
    simp [openPath, hsplit, Prog.run_bind]
  · obtain ⟨hzp, hzn⟩ := splitPath_done hz hsplit
    obtain ⟨L₀, hwalk, hL₀⟩ := h.run_getInodeIdOfDir (F := F) (T := []) hg parentPath
    simp only [follow_done, Prog.run_bind, hwalk]
    rcases hres : I.store.resolve parentPath with (_ | p) | e
    · obtain rfl := hL₀ _ hres
      refine ⟨[], [], ?_⟩
      simp [hg, openPath, hsplit, hres, Prog.run_bind]
    · obtain rfl := hL₀ _ hres
      obtain ⟨hp, hl⟩ := h.resolve_linked hres
      obtain ⟨inode, hget, hok⟩ := h.layout.inode hp
      have hp128 : p ≠ 128 := h.layout.inode_ne hp
      have hspec : I.openPath path = I.openIn p name := by
        simp only [openPath, hsplit, hres]
      have hread := run_readInode (B := I.sb) (F := F) (T := []) (h := .inode)
        (L := [.superblock, .image]) (S := I.store) hget hg (by simp) (by simp)
      simp only [Outcome.map_done, Option.getD_some, follow_done, hg, defaultFsInfo_inodesCount,
        hp128, if_false, Prog.run_bind, hspec, hread, Option.isNone_some, Bool.false_eq_true,
        run_use, List.mem_cons, true_or]
      obtain ⟨b₀, s₀, hb₀, ht₀, hs₀, _⟩ := hok.getElem hok.count_pos
      have hfirst := firstSlot_eq (block_eq hget hb₀ hs₀)
      -- the parent is a file
      by_cases hkind : inode.isFile = true
      · refine ⟨[], [], ?_⟩
        simp [hkind, openIn, hget, hfirst, Prog.run_bind]
      have hd : I.store.IsDir p := ⟨hp, inode, hget, by simpa using hkind⟩
      have htable := run_readDescriptorsTable (S := I.store) (B := I.sb) (F := F)
        (L := [.inode, .superblock, .image]) (T := []) rfl hg (by simp) (by simp)
      have hlookup := h.run_lookup (F := F) (T := []) (B := I.sb)
        (L := [.descriptorsTable, .inode, .superblock, .image]) hg hd hget hfirst hzn (by simp)
        (by simp) (by simp)
      simp only [if_neg hkind, getFileInodeId, Prog.run_bind, htable, follow_done, hlookup]
      -- `read_block` crashes on the block of the parent
      by_cases hmixed : s₀.Mixed
      · refine ⟨[.descriptorsTable, .inode, .superblock, .image], [], ?_⟩
        simp [hmixed, openIn, hget, hfirst, hkind]
      simp only [if_neg hmixed, follow_done, Prog.run_pure]
      -- the name has no record
      rcases hfind : s₀.find name with _ | i
      · refine ⟨[], [], ?_⟩
        simp [hg, hmixed, hfind, openIn, hget, hfirst, hkind, Prog.run_bind]
      · have hi128 : i ≠ 128 := h.layout.inode_ne (h.find_linked hd hl hfirst hfind).1
        simp only [Option.getD_some, hg, defaultFsInfo_inodesCount, hi128, if_false, Prog.run_bind,
          run_use, List.mem_cons, true_or, follow_done]
        -- no descriptor is free
        rcases hfd : MiniExt.reserveDescriptor I.dt i with _ | ⟨fd, dt⟩
        · refine ⟨[], [], ?_⟩
          simp [hmixed, hfind, hfd, openIn, hget, hfirst, hkind, Prog.run_bind]
        · have hwrite := run_writeDescriptorTable (S := I.store) (B := I.sb) (F := F)
            (L := [.descriptorsTable, .inode, .superblock, .image]) (T := []) dt hg (by simp)
            (by simp) (by simp)
          refine ⟨[], [(I.setTable dt).store], ?_⟩
          simp [hmixed, hfind, hfd, openIn, hget, hfirst, hkind, Prog.run_bind, hwrite]
          rfl
    · refine ⟨L₀, [], ?_⟩
      simp [openPath, hsplit, hres]
  · refine ⟨[.superblock, .image], [], ?_⟩
    simp [openPath, hsplit]

/-- `open` leaves the image as it is, or occupies a descriptor for the inode that the record
    of its name leads to. -/
theorem openPath_cases (h : I.Ok) (path : List UInt8) :
    (I.openPath path).2 = I ∧ (∀ fd, (I.openPath path).1 ≠ .done (some fd)) ∨
      ∃ i fd dt, I.openPath path = (.done (some fd), I.setTable dt) ∧
        I.store.target path = some i ∧ I.store.tree.Linked rootInodeId i ∧
        MiniExt.reserveDescriptor I.dt i = some (fd, dt) := by
  rw [openPath_eq]
  rcases hsite : I.store.site path with (_ | ⟨p, s, name⟩) | e
  · exact Or.inl ⟨rfl, by simp⟩
  · obtain ⟨hd, hl, b, hblock⟩ := h.site_dir hsite
    obtain ⟨inode, hget, hkind⟩ := id hd.2
    rw [store_inodes] at hget
    simp only [openIn, hget, firstSlot_eq hblock, hkind, Bool.false_eq_true, if_false]
    by_cases hmixed : s.Mixed
    · exact Or.inl (by simp [hmixed])
    rcases hfind : s.find name with _ | i
    · exact Or.inl (by simp [hmixed])
    rcases hfd : MiniExt.reserveDescriptor I.dt i with _ | ⟨fd, dt⟩
    · exact Or.inl (by simp [hmixed, hfd])
    · exact Or.inr ⟨i, fd, dt, by simp [hmixed, hfd],
        by simp [Store.target, hsite, hmixed, hfind],
        (h.find_linked hd hl (firstSlot_eq hblock) hfind).2, hfd⟩
  · exact Or.inl ⟨rfl, by simp⟩

/-- An open keeps the invariant. -/
theorem openPath_ok (h : I.Ok) (path : List UInt8) : (I.openPath path).2.Ok := by
  rcases h.openPath_cases path with ⟨heq, _⟩ | ⟨i, fd, dt, heq, _, hl, hfd⟩
  · rw [heq]
    exact h
  · rw [heq]
    exact h.reserveDescriptor hl hfd

end Image.Ok

end MiniExt
