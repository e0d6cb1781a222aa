import MiniExt.Runs.Write

namespace MiniExt

open Lib

/-!
# The run of `read`

The loop of `read_file` computes `Image.readTurns`.  The block it visits is one the inode
lists, or, one past the list, block 0: the entries of a block list that are not used hold 0,
and block 0 is the first block of the root directory.

* `readable` — what `read_block` returns for every entry the loop can visit;
* `run_readLoop` — the loop;
* `run_readFile` — the command, and `read_ok`, that it keeps the invariant.
-/

variable {I : Image} {F : HostFiles} {T : List Store} {i size capacity : Nat}

/-- A block with records has nothing in its data buffer. -/
theorem Slot.IsRecords.buffer_eq {s : Slot} {d : Nat} (h : s.IsRecords d) :
    s.buffer = List.replicate 121 0 := by
  obtain ⟨parent, named, hbody, _⟩ := h
  have hv : s.visible = [] := by simp only [Slot.visible, hbody]
  rw [Slot.buffer, hv]
  rfl

/-- The root block, to which every unused entry of a block list leads. -/
theorem Image.Ok.root_slot (h : I.Ok) :
    ∃ s, I.slots 0 = some s ∧ s.IsRecords 0 ∧ s.info.dataSize = 0 := by
  obtain ⟨s, hblock, hz⟩ := h.layout.rootBlock
  obtain ⟨_, _, _, hs⟩ := Image.block_cases hblock
  exact ⟨s, hs, (h.layout.recordsBlock h.root_dir hblock).2, hz⟩

/-- What the loop finds under an entry of the block list. -/
theorem Image.Ok.readable (h : I.Ok) {inode : Inode} (hok : I.InodeOk i inode) {k b : Nat}
    (hk : k ≤ inode.blocksCount) (hb : inode.blockIds[k]? = some b) :
    ∃ s rs, I.slots b = some s ∧ I.store.readBlock defaultFsInfo b =
      .done (if s.Mixed then .mixed else .read ⟨s.info, rs, s.buffer⟩) ∧
        (¬ s.Mixed → s.buffer.length = 121) := by
  have hrecords : ∀ {s : Slot} {d : Nat}, I.slots b = some s → s.IsRecords d →
      ∃ s rs, I.slots b = some s ∧ I.store.readBlock defaultFsInfo b =
        .done (if s.Mixed then .mixed else .read ⟨s.info, rs, s.buffer⟩) ∧
          (¬ s.Mixed → s.buffer.length = 121) := by
    intro s d hs hrec
    refine ⟨s, some s.records, hs, ?_, fun _ => ?_⟩
    · by_cases hmixed : s.Mixed
      · rw [readBlock_mixed (S := I.store) hs hmixed, if_pos hmixed]
      · rw [readBlock_records (S := I.store) hs hrec hmixed, if_neg hmixed, hrec.buffer_eq]
    · rw [hrec.buffer_eq, List.length_replicate]
  rcases Nat.lt_or_eq_of_le hk with hlt | rfl
  · obtain ⟨_, s, hs, hh⟩ := hok.block hlt hb
    have hbody := hh.body
    by_cases hdir : k = 0 ∧ inode.isFile = false
    · rw [if_pos hdir] at hbody
      exact hrecords hs hbody
    · rw [if_neg hdir] at hbody
      refine ⟨s, none, hs, ?_, fun _ => Image.length_buffer hbody⟩
      rw [readBlock_data (S := I.store) hs hbody, if_neg hbody.not_mixed]
  · have hlt := (List.getElem?_eq_some_iff.mp hb).1
    rw [hok.length_eq] at hlt
    have hzero := hok.unused (Nat.le_refl _) hlt
    rw [hb] at hzero
    cases hzero
    obtain ⟨s, hs, hrec, _⟩ := h.root_slot
    exact hrecords hs hrec

/-- **The loop** computes `Image.readTurns`. -/
theorem Image.Ok.run_readLoop (h : I.Ok) (hi : Taken I.sb.reservedInodesMask i) {inode : Inode}
    (hget : I.inodes i = some inode) (fuel pos : Nat) (dest : List UInt8) (need : Nat)
    (hsize : dest.length + need = size) (hneed : need ≤ 968) (hpos : pos ≤ 1936) :
    ∃ L' left, (readLoop I.sb inode size capacity fuel ⟨pos, dest, need⟩).run hostHandler
        ⟨I.store, F, loopLive, T⟩ =
      ((I.readTurns i capacity fuel pos dest need).map fun r => ⟨r.2, r.1, left⟩,
        ⟨I.store, F, L', T⟩) ∧
      ∀ r, I.readTurns i capacity fuel pos dest need = .done r → L' = loopLive := by
  have hok := h.layout.inodeOk hi hget
  have hg := h.layout.geometry
  -- by induction on the turns
  induction fuel generalizing pos dest need with
  | zero => exact ⟨loopLive, need, rfl, fun _ _ => rfl⟩
  | succ fuel ih =>
    by_cases hdone : need = 0
    · subst hdone
      refine ⟨loopLive, 0, ?_, fun _ _ => rfl⟩
      simp only [readLoop, readTurns, if_true, show dest.length = size from hsize]
      rfl
    have hturn : ¬ dest.length = size := by omega
    have hmod : pos % 2 ^ 16 / 121 % 2 ^ 16 = pos / 121 := by
      rw [Nat.mod_eq_of_lt (by omega : pos < 2 ^ 16), Nat.mod_eq_of_lt]
      omega
    have hsb : Handle.superblock ∈ loopLive := by simp [loopLive]
    have hin : Handle.inode ∈ loopLive := by simp [loopLive]
    have himg : Handle.image ∈ loopLive := by simp [loopLive]
    simp only [readLoop, readTurns, hdone, hturn, if_false, Prog.run_bind, run_use hsb,
      run_use hin, follow_done, hg, getMaxDataInBlock_default, show ¬ 121 = 0 by decide, hmod, hget]
    -- an entry past the list ends the loop
    by_cases hk : inode.blocksCount < pos / 121
    · refine ⟨loopLive, need, ?_, fun _ _ => rfl⟩
      simp only [if_pos hk, Prog.run_pure, Outcome.map_done]
    simp only [if_neg hk, Prog.run_bind]
    -- the entry right behind the list may be past the array
    rcases hb : inode.blockIds[pos / 121]? with _ | b
    · refine ⟨loopLive, need, ?_, fun _ hr => by cases hr⟩
      rw [run_index_none hb]
      rfl
    obtain ⟨s, rs, hslot, hread, hbuf⟩ := h.readable hok (Nat.not_lt.mp hk) hb
    simp only [run_index_some hb, follow_done, hslot]
    -- `read_block` crashes on a mixed block
    by_cases hmixed : s.Mixed
    · rw [if_pos hmixed] at hread
      refine ⟨loopLive, need, ?_, fun _ hr => by simp [hmixed] at hr⟩
      simp only [if_pos hmixed, run_readBlock_mixed (B := I.sb) (F := F) (L := loopLive) (T := T)
        (h := .block) hread hg himg hsb, follow_halted, Outcome.map_halted]
    rw [if_neg hmixed] at hread
    simp only [if_neg hmixed, run_readBlock (B := I.sb) (F := F) (L := loopLive) (T := T)
      (h := .block) hread hg himg hsb, follow_done]
    -- the remainder is taken without a sign
    generalize (s.info.dataSize + 2 ^ 32 - pos % 121) % 2 ^ 32 = remain
    by_cases hremain : remain = 0
    · refine ⟨loopLive, need, ?_, fun _ _ => rfl⟩
      simp [hremain, Prog.run_bind, loopLive]
    simp only [if_neg hremain, hbuf hmixed]
    have hn : (if need < remain then need else remain) ≤ need := by
      split <;> omega
    generalize (if need < remain then need else remain) = n at hn
    -- the copy leaves the block or the buffer
    by_cases hroom : 121 < pos % 121 + n ∨ capacity < dest.length + n
    · refine ⟨.block :: loopLive, need, ?_, fun _ hr => by simp [hroom] at hr⟩
      simp [hroom]
    have hk8 : pos / 121 < 8 := hok.length_eq ▸ (List.getElem?_eq_some_iff.mp hb).1
    have h32 : (pos + n) % 2 ^ 32 = pos + n := Nat.mod_eq_of_lt (by omega)
    simp only [if_neg hroom, Prog.run_bind, run_release (List.mem_cons_self ..),
      List.erase_cons_head, follow_done, h32]
    refine ih (pos + n) _ (need - n) ?_ (by omega) (by omega)
    have hpiece : ((s.buffer.drop (pos % 121)).take n).length = n := by
      rw [List.length_take, List.length_drop, hbuf hmixed]
      omega
    rw [List.length_append, hpiece]
    omega

/-- The position the loop reaches is the old one, or lies in the file. -/
theorem Image.readTurns_position
    (hlen : ∀ inode, I.inodes i = some inode → inode.blockIds.length = 8) {fuel pos need : Nat}
    {dest dest' : List UInt8} {pos' : Nat}
    (h : I.readTurns i capacity fuel pos dest need = .done (dest', pos')) :
    pos' = pos ∨ pos' ≤ 968 := by
  induction fuel generalizing pos dest need with
  | zero =>
    cases h
    exact Or.inl rfl
  | succ fuel ih =>
    unfold readTurns at h
    split at h
    · cases h
      exact Or.inl rfl
    split at h
    · cases h
    rename_i inode hget
    split at h
    · cases h
      exact Or.inl rfl
    split at h
    · cases h
    rename_i b hb
    split at h
    · cases h
    rename_i s hslot
    split at h
    · cases h
    simp only at h
    generalize (s.info.dataSize + 2 ^ 32 - pos % 121) % 2 ^ 32 = remain at h
    split at h
    · cases h
      exact Or.inl rfl
    generalize (if need < remain then need else remain) = n at h
    split at h
    · cases h
    rename_i hroom
    -- a byte was copied from a block the list has an entry for
    have hk : pos / 121 < 8 := hlen inode hget ▸ (List.getElem?_eq_some_iff.mp hb).1
    rcases ih h with heq | hle
    · rw [heq]
      right
      omega
    · exact Or.inr hle

namespace Image.Ok

/-- What `read` does: nothing, or the loop on the inode of its descriptor. -/
theorem read_cases (h : I.Ok) (fd size capacity : Nat) :
    (I.dt.reservedFd[fd]? = none ∧ I.read fd size capacity = (.halted .memoryError, I)) ∨
    (I.dt.reservedFd[fd]? = some false ∧ I.read fd size capacity = (.done none, I)) ∨
      ∃ i pos, I.dt.reservedFd[fd]? = some true ∧ I.dt.fdToInode[fd]? = some i ∧
        I.dt.fdToPosition[fd]? = some pos ∧ I.read fd size capacity =
          match I.readTurns i capacity (min size 968) pos [] (min size 968) with
          | .done (dest, pos') => (.done (some dest), I.setPosition fd pos')
          | .halted e => (.halted e, I) := by
  unfold read
  rcases hres : I.dt.reservedFd[fd]? with _ | reserved
  · exact Or.inl ⟨rfl, rfl⟩
  have hfd : fd < 16 := by
    rw [← h.table.fdLength]
    exact (List.getElem?_eq_some_iff.mp hres).1
  cases reserved
  · exact Or.inr (Or.inl ⟨rfl, rfl⟩)
  · obtain ⟨i, hi⟩ : ∃ i, I.dt.fdToInode[fd]? = some i :=
      ⟨_, List.getElem?_eq_getElem (h.table.inodeLength.symm ▸ hfd)⟩
    obtain ⟨pos, hpos⟩ : ∃ pos, I.dt.fdToPosition[fd]? = some pos :=
      ⟨_, List.getElem?_eq_getElem (h.table.positionLength.symm ▸ hfd)⟩
    refine Or.inr (Or.inr ⟨_, _, rfl, hi, hpos, ?_⟩)
    rcases hturns : I.readTurns i capacity (min size 968) pos [] (min size 968) with
      ⟨dest, pos'⟩ | e
    · simp only [hi, hpos, hturns]
    · simp only [hi, hpos, hturns]

/-- **`read`** computes `Image.read`. -/
theorem run_readFile (h : I.Ok) (fd size capacity : Nat) :
    ∃ L' T', (readFile fd size capacity).run hostHandler ⟨I.store, F, [], T⟩ =
      ((I.read fd size capacity).1, ⟨(I.read fd size capacity).2.store, F, L', T'⟩) := by
  have hg := h.layout.geometry
  have hread := run_readDescriptorsTable (S := I.store) (B := I.sb) (F := F)
    (L := [.superblock, .image]) (T := T) rfl hg (by simp) (by simp)
  simp only [readFile, Prog.run_bind, h.run_enter, follow_done, hg,
    getMaxDataSizeOfAllBlocks_default, hread, run_use (List.mem_cons_self ..)]
  -- past the table, on a free descriptor, on an open one
  rcases h.read_cases fd size capacity with ⟨hres, heq⟩ | ⟨hres, heq⟩ |
    ⟨i, pos, hres, hi, hpos, heq⟩
  · refine ⟨[.descriptorsTable, .superblock, .image], T, ?_⟩
    rw [run_index_none hres, heq]
    rfl
  · refine ⟨[], T, ?_⟩
    rw [run_index_some hres, heq]
    simp [Prog.run_bind]
  · obtain ⟨hres', _⟩ := h.descriptor hres hi
    obtain ⟨inode, hget, hok⟩ := h.layout.inode hres'
    have hinode := run_readInode (S := I.store) (B := I.sb) (F := F) (h := .inode)
      (L := [.descriptorsTable, .superblock, .image]) (T := T) hget hg (by simp) (by simp)
    have hlive : [.inode, .descriptorsTable, .superblock, .image] = loopLive := rfl
    have hbound := h.table.position_le ⟨hres, hi, hpos⟩ hget
    have hcount := hok.count_le
    obtain ⟨L', left, hloop, hL'⟩ := h.run_readLoop (F := F) (T := T) hres' hget (min size 968)
      pos [] (min size 968) (Nat.zero_add _) (by omega) (by omega)
    rw [run_index_some hres]
    simp only [follow_done, Bool.not_true, Bool.false_eq_true, if_false, Prog.run_bind,
      run_index_some hpos, run_index_some hi, hinode, hlive, heq]
    rcases hturns : I.readTurns i capacity (min size 968) pos [] (min size 968) with
      ⟨dest, pos'⟩ | e
    · obtain rfl := hL' _ hturns
      generalize hdt : { I.dt with fdToPosition := I.dt.fdToPosition.set fd pos' } = dt
      have hwrite := run_writeDescriptorTable (S := I.store) (B := I.sb) (F := F) (L := loopLive)
        (T := T) dt hg (by simp [loopLive]) (by simp [loopLive]) (by simp [loopLive])
      refine ⟨[], (I.setTable dt).store :: T, ?_⟩
      have hstore : (⟨some I.sb, some dt, I.inodes, I.slots⟩ : Store) = (I.setTable dt).store := rfl
      have hJ : I.setPosition fd pos' = I.setTable dt := by rw [← hdt]; rfl
      simp only [hloop, hturns, Outcome.map_done, follow_done, hdt, hwrite, hJ]
      simp [loopLive, Prog.run_bind, hstore]
    · refine ⟨L', T, ?_⟩
      simp only [hloop, hturns, Outcome.map_halted, follow_halted]

/-- A read keeps the invariant. -/
theorem read_ok (h : I.Ok) (fd size capacity : Nat) : (I.read fd size capacity).2.Ok := by
  rcases h.read_cases fd size capacity with ⟨_, heq⟩ | ⟨_, heq⟩ | ⟨i, pos, hres, hi, hpos, heq⟩
  · rw [heq]
    exact h
  · rw [heq]
    exact h
  · rw [heq]
    rcases hturns : I.readTurns i capacity (min size 968) pos [] (min size 968) with
      ⟨dest, pos'⟩ | e
    · refine h.setPosition fun j inode hj hget => ?_
      rw [hi] at hj
      cases hj
      have hok := h.layout.inodeOk (h.descriptor hres hi).1 hget
      have hlen : ∀ inode', I.inodes i = some inode' → inode'.blockIds.length = 8 := by
        intro inode' hget'
        rw [hget] at hget'
        cases hget'
        exact hok.length_eq
      rcases readTurns_position hlen hturns with rfl | hle
      · exact h.table.position_le ⟨hres, hi, hpos⟩ hget
      · omega
    · exact h

end Image.Ok

end MiniExt
