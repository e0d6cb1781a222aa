import MiniExt.Lib.Monitor
import MiniExt.Properties.Positions
import MiniExt.Properties.ReadWrite
import MiniExt.Runs.Frames
import MiniExt.Runs.Handles

namespace MiniExt

open Lib

/-!
# How far positions get

`lseek` rejects a position at the end of the largest file, but a write from a gap goes on from
where it is: it appends the blocks that are missing before the position, and its position runs
ahead of them, past the end of the largest file.

* `Store.PositionsBounded` — the persisted positions;
* `WritesWithin`, `ReadsWithin` — the entries that the loops come to, turn by turn;
* `Drifts` — the writes that move a position too far;
* `positions_bounded` — the runs without them.
-/

/-- No persisted position is past the end of the largest file. -/
def Store.PositionsBounded (st : Store) : Prop :=
  ∀ dt, st.descriptorsTable = some dt →
    ∀ p ∈ dt.fdToPosition, p ≤ getMaxDataSizeOfAllBlocks defaultFsInfo

/-- Whatever the number of turns, the loop of `write_to_file` is left at a position whose block
    index is at most `blocks_count_in_inode`. -/
def WritesWithin (w : World) (fd : Nat) (data : List UInt8) : Prop :=
  ∀ (sb : Superblock) (dt : DescriptorsTable) (i p : Nat) (inode : Inode) (turns : Nat)
    (s : WriteState) (m : Machine),
    w.store.superblock = some sb → w.store.descriptorsTable = some dt →
    w.store.Descriptor fd i p → w.store.inodes i = some inode →
    let size := min data.length (getMaxDataSizeOfAllBlocks sb.fsInfo)
    (writeLoop fd i size turns ⟨sb, dt, inode, p, data, 0, size⟩).run hostHandler
        ⟨w.store, w.files, loopLive, []⟩ = (.done s, m) →
      readEntry sb.fsInfo s.fdPosition ≤ sb.fsInfo.blocksCountInInode

/-- So is the loop of `read_file`. -/
def ReadsWithin (w : World) (fd size capacity : Nat) : Prop :=
  ∀ (sb : Superblock) (i p : Nat) (inode : Inode) (turns : Nat) (s : ReadState) (m : Machine),
    w.store.superblock = some sb → w.store.Descriptor fd i p → w.store.inodes i = some inode →
    let size := min size (getMaxDataSizeOfAllBlocks sb.fsInfo)
    (readLoop sb inode size capacity turns ⟨p, [], size⟩).run hostHandler
        ⟨w.store, w.files, loopLive, []⟩ = (.done s, m) →
      readEntry sb.fsInfo s.fdPosition ≤ sb.fsInfo.blocksCountInInode

/-- A write of `size` bytes that starts in a gap and finds enough blocks to get past the end of
    the largest file. -/
def Store.PassesEnd (st : Store) (fd size : Nat) : Prop :=
  ∃ i p inode, st.Descriptor fd i p ∧ st.inodes i = some inode ∧ inode.blocksCount < p / 121 ∧
    968 < p + min (min size 968) (121 * min (8 - inode.blocksCount) st.freeBlocks - p % 121)

/-- The commands that move a position past the end of the largest file. -/
def Drifts (w : World) : Command → Prop
  | .write fd data => w.store.PassesEnd fd data.length
  | .writeFrom fd path =>
    ∃ data, Image.hostData w.files path.bytes = some data ∧ w.store.PassesEnd fd data.length
  | _ => False

/-! ### One turn -/

/-- From here on a write of `need` bytes stays within the largest file: it is not in a gap, or
    it runs out of data or of blocks soon enough. -/
structure StaysWithin (blocksCount freeBlocks pos need : Nat) : Prop where
  pos_le : pos ≤ 968
  count_le : blocksCount ≤ 8
  room : pos / 121 ≤ blocksCount ∨
    pos + min need (121 * min (8 - blocksCount) freeBlocks - pos % 121) ≤ 968

section Turns

variable {blocksCount freeBlocks pos need n : Nat}

/-- A turn on a block that the inode lists. -/
theorem StaysWithin.listed (h : StaysWithin blocksCount freeBlocks pos need)
    (hk : pos / 121 < blocksCount) (hn : n = min need (121 - pos % 121)) :
    StaysWithin blocksCount freeBlocks (pos + n) (need - n) := by
  have hcount := h.count_le
  have hend : pos + n ≤ 121 * (pos / 121 + 1) := by omega
  have hentry : (pos + n) / 121 ≤ pos / 121 + 1 := by omega
  exact ⟨by omega, hcount, Or.inl (hentry.trans hk)⟩

/-- A turn that appends a block. -/
theorem StaysWithin.appended (h : StaysWithin blocksCount freeBlocks pos need)
    (hcount : blocksCount ≠ 8) (hfree : 0 < freeBlocks) (hn : n = min need (121 - pos % 121)) :
    StaysWithin (blocksCount + 1) (freeBlocks - 1) (pos + n) (need - n) := by
  obtain ⟨hpos, hle, hroom⟩ := h
  have hend : pos + n ≤ 121 * (pos / 121 + 1) := by omega
  rcases hroom with hentry | hroom
  · -- the appended block is the one of the position, or an earlier one
    exact ⟨by omega, by omega, Or.inl (by omega)⟩
  · have hblocks : min (8 - (blocksCount + 1)) (freeBlocks - 1) + 1 =
        min (8 - blocksCount) freeBlocks := by omega
    generalize min (8 - (blocksCount + 1)) (freeBlocks - 1) = rest at hblocks ⊢
    rw [← hblocks] at hroom
    refine ⟨by omega, by omega, Or.inr ?_⟩
    by_cases hall : need ≤ 121 - pos % 121
    · -- nothing is left to write
      have hzero : need - n = 0 := by omega
      rw [hzero, Nat.zero_min, Nat.add_zero]
      omega
    · have hboundary : (pos + n) % 121 = 0 := by omega
      rw [hboundary]
      omega

end Turns

/-- A piece is as long as the copy of its turn. -/
theorem length_piece (pos : Nat) (data : List UInt8) :
    (data.take (121 - pos % 121)).length = min data.length (121 - pos % 121) := by
  rw [List.length_take, Nat.min_comm]

/-- What a turn leaves of the data. -/
theorem length_rest (pos : Nat) (data : List UInt8) :
    (data.drop (121 - pos % 121)).length = data.length - (data.take (121 - pos % 121)).length := by
  rw [length_piece, List.length_drop]
  omega

namespace Image

variable {I : Image}

/-- **The whole loop** of a write stays within the largest file. -/
theorem WriteRun.pos_le {i pos : Nat} {data : List UInt8} {r : WriteEnd}
    (hrun : WriteRun i I pos data r) (h : I.Ok) (hi : Taken I.sb.reservedInodesMask i)
    {inode : Inode} (hget : I.inodes i = some inode)
    (hstay : StaysWithin inode.blocksCount (free I.sb.reservedBlocksMask) pos data.length) :
    r.pos ≤ 968 := by
  induction hrun generalizing inode with
  | done => exact hstay.pos_le
  | @patch I pos b data inode' s r hd hget' hk hblock hs next ih =>
    obtain rfl : inode' = inode := Option.some.inj (hget'.symm.trans hget)
    apply ih (h.patch hi hget hk hblock hs (piece_fits _ _)) hi hget
    rw [length_rest]
    exact hstay.listed hk (length_piece pos data)
  | spoil => exact hstay.pos_le
  | reject => exact hstay.pos_le
  | noBlock => exact hstay.pos_le
  | noEntry => exact hstay.pos_le
  | @append I pos b data inode' r hd hget' hk hb hcount next ih =>
    obtain rfl : inode' = inode := Option.some.inj (hget'.symm.trans hget)
    have hid := (h.layout.inodeOk hi hget).id_eq
    apply ih (h.append hi hget hcount hb (piece_fits _ _)) hi (setInode_grown hid _)
    have hfree : free (I.sb.reservedBlocksMask.set b true) = free I.sb.reservedBlocksMask - 1 :=
      free_set hb
    rw [length_rest]
    show StaysWithin (inode'.blocksCount + 1) (free (I.sb.reservedBlocksMask.set b true)) _ _
    rw [hfree]
    exact hstay.appended hcount (free_pos_of_firstFree hb) (length_piece pos data)

end Image

/-! ### Every turn -/

/-- The variables of the loop stay within the largest file. -/
def WriteState.Stays (s : WriteState) : Prop :=
  StaysWithin s.inode.blocksCount (free s.sb.reservedBlocksMask) s.fdPosition s.needToWriteSize

section Loop

variable {s : WriteState}

/-- The copy of a turn, at the default geometry. -/
theorem WriteState.filled_eq (hg : s.sb.fsInfo = defaultFsInfo) :
    ∃ n, n = min s.needToWriteSize (121 - s.fdPosition % 121) ∧
      s.filled = { s with
        fdPosition := (s.fdPosition + n) % 2 ^ 32
        data := s.data.drop n
        totalWritten := s.totalWritten + n
        needToWriteSize := s.needToWriteSize - n } := by
  have hmax : getMaxDataInBlock s.sb.fsInfo = 121 := by rw [hg, getMaxDataInBlock_default]
  obtain ⟨n, hn⟩ : ∃ n, (if s.needToWriteSize < 121 - s.fdPosition % 121 then s.needToWriteSize
      else 121 - s.fdPosition % 121) = n := ⟨_, rfl⟩
  have hmin : n = min s.needToWriteSize (121 - s.fdPosition % 121) := by
    rw [← hn]
    split <;> omega
  unfold WriteState.filled
  dsimp only
  rw [hmax, hn]
  exact ⟨n, hmin, rfl⟩

/-- The rest of a write stays within after a block was filled. -/
theorem WriteState.Stays.filled (hg : s.sb.fsInfo = defaultFsInfo)
    (hnext : ∀ n, n = min s.needToWriteSize (121 - s.fdPosition % 121) →
      StaysWithin s.inode.blocksCount (free s.sb.reservedBlocksMask) (s.fdPosition + n)
        (s.needToWriteSize - n)) : s.filled.Stays := by
  obtain ⟨n, hn, heq⟩ := s.filled_eq hg
  have hstay := hnext n hn
  have hlt : s.fdPosition + n < 2 ^ 32 := hstay.pos_le.trans_lt (by decide)
  rw [heq, Nat.mod_eq_of_lt hlt]
  exact hstay

/-- A filled block keeps the geometry. -/
theorem WriteState.filled_fsInfo (hg : s.sb.fsInfo = defaultFsInfo) :
    s.filled.sb.fsInfo = defaultFsInfo := by
  obtain ⟨n, -, heq⟩ := s.filled_eq hg
  rw [heq]
  exact hg

/-- The variables after a turn that appends block `b`. -/
theorem WriteState.Stays.appended {t : WriteState} {b : Nat} (hstay : s.Stays)
    (hb : firstFree s.sb.reservedBlocksMask = some b) (hcount : s.inode.blocksCount ≠ 8)
    (hg : t.sb.fsInfo = defaultFsInfo)
    (hmask : t.sb.reservedBlocksMask = s.sb.reservedBlocksMask.set b true)
    (hinode : t.inode.blocksCount = (s.inode.blocksCount + 1) % 2 ^ 16)
    (hpos : t.fdPosition = s.fdPosition) (hneed : t.needToWriteSize = s.needToWriteSize) :
    t.filled.Stays := by
  apply Stays.filled hg
  intro n hn
  rw [hpos, hneed] at hn
  have hnext := StaysWithin.appended hstay hcount (free_pos_of_firstFree hb) hn
  have hsmall : s.inode.blocksCount + 1 < 2 ^ 16 := hnext.count_le.trans_lt (by decide)
  rw [hmask, free_set hb, hinode, Nat.mod_eq_of_lt hsmall, hpos, hneed]
  exact hnext

/-- **Every turn** of the loop of `write_to_file` ends within the largest file. -/
theorem writeLoop_stays (fd i size turns : Nat) (hg : s.sb.fsInfo = defaultFsInfo)
    (hstay : s.Stays) : (writeLoop fd i size turns s).Yields fun s' => s'.fdPosition ≤ 968 := by
  -- by induction on the turns: only the fill of a block moves the position
  induction turns generalizing s with
  | zero => exact Prog.yields_pure hstay.pos_le
  | succ turns ih =>
    unfold writeLoop
    split
    · exact Prog.yields_pure hstay.pos_le
    have hmax : getMaxDataInBlock s.sb.fsInfo = 121 := by rw [hg, getMaxDataInBlock_default]
    have hpos := hstay.pos_le
    have hk : s.fdPosition % 2 ^ 16 / 121 % 2 ^ 16 = s.fdPosition / 121 := by omega
    dsimp only
    rw [hmax, if_neg (show ¬ 121 = 0 by decide), hk]
    apply Prog.Yields.bind
    intro _
    apply Prog.Yields.bind
    intro _
    split
    · rename_i hlisted
      apply Prog.Yields.bind
      intro _
      apply Prog.Yields.bind
      intro read
      rcases read with _ | block
      · apply Prog.Yields.bind
        intro _
        apply Prog.Yields.bind
        intro _
        exact Prog.yields_pure hpos
      · apply Prog.Yields.bind_yields (yields_fillBlock s block)
        rintro _ rfl
        apply ih (s.filled_fsInfo hg)
        exact .filled hg fun n hn => StaysWithin.listed hstay hlisted hn
    · -- the branches without a block keep the position
      have hleft : ∀ s' : WriteState, s'.fdPosition = s.fdPosition →
          (storeAll fd s' >>= fun _ => pure s').Yields fun s' => s'.fdPosition ≤ 968 := by
        intro s' heq
        apply Prog.Yields.bind
        intro _
        exact Prog.yields_pure (heq ▸ hpos)
      rcases hb : firstFree s.sb.reservedBlocksMask with _ | b
      · simp only [reserveBlock, hb, if_true]
        exact hleft _ rfl
      · simp only [reserveBlock, hb]
        split
        · exact hleft _ rfl
        split
        · exact hleft _ rfl
        rename_i hcount
        rw [hg, defaultFsInfo_blocksCountInInode] at hcount
        apply Prog.Yields.bind_yields (yields_appendBlock _ i b)
        rintro ⟨t, block⟩ ht
        dsimp only [WriteState.appended] at ht
        have hgt : t.sb.fsInfo = defaultFsInfo := by rw [ht, hg]
        apply Prog.Yields.bind_yields (yields_fillBlock t block)
        rintro _ rfl
        apply ih (t.filled_fsInfo hgt)
        apply hstay.appended hb hcount hgt <;> rw [ht]

end Loop

/-! ### Every command -/

namespace Image

variable {I : Image}

/-- The positions of a table are bounded, as runs preserve it. -/
def Bounded (I : Image) : Prop := ∀ p ∈ I.dt.fdToPosition, p ≤ 968

/-- The positions of a new image are bounded. -/
theorem bounded_formatted : formatted.Bounded := by
  intro p hp
  obtain rfl : p = 0 := List.eq_of_mem_replicate (show p ∈ List.replicate 16 0 from hp)
  exact Nat.zero_le 968

/-- One position is set, whatever else changes. -/
theorem Bounded.set (hb : I.Bounded) {J : Image} {fd pos : Nat}
    (hJ : J.dt.fdToPosition = I.dt.fdToPosition.set fd pos) (hpos : pos ≤ 968) : J.Bounded := by
  intro p hp
  rw [hJ] at hp
  rcases List.mem_or_eq_of_mem_set hp with hold | rfl
  · exact hb p hold
  · exact hpos

/-- No position is set. -/
theorem Bounded.same (hb : I.Bounded) {J : Image} (hJ : J.dt = I.dt) : J.Bounded := by
  intro p hp
  rw [hJ] at hp
  exact hb p hp

/-- A write that does not pass the end stays within the largest file. -/
theorem Bounded.staysWithin (hb : I.Bounded) {fd i p n : Nat} {inode : Inode}
    (hent : I.dt.Entry fd i p) (hok : I.InodeOk i inode) (hget : I.inodes i = some inode)
    (hpass : ¬ I.store.PassesEnd fd n) :
    StaysWithin inode.blocksCount (free I.sb.reservedBlocksMask) p (min n 968) := by
  refine ⟨hb p (List.mem_of_getElem? hent.position), hok.count_le, ?_⟩
  by_contra hfar
  push Not at hfar
  exact hpass ⟨i, p, inode, descriptor_iff.mpr hent, hget, hfar.1, hfar.2⟩

/-- A write that does not pass the end keeps the positions bounded. -/
theorem Bounded.written (hb : I.Bounded) (h : I.Ok) (fd : Nat) (data : List UInt8)
    (hpass : ¬ I.store.PassesEnd fd data.length) : (I.written fd data).Bounded := by
  rcases h.write_cases fd data with ⟨_, _, heq⟩ | ⟨_, _, heq⟩ |
    ⟨i, p, r, hres, hi, hpos, hrun, _, heq⟩
  · rw [heq]
    exact hb
  · rw [heq]
    exact hb
  · obtain ⟨htaken, _⟩ := h.descriptor hres hi
    obtain ⟨inode, hget, hok⟩ := h.layout.inode htaken
    have hstay := hb.staysWithin ⟨hres, hi, hpos⟩ hok hget hpass
    rw [Nat.min_comm, ← List.length_take] at hstay
    rw [heq, WriteEnd.settled]
    split
    · exact hb.same hrun.dt
    · have hset : (r.image.setPosition fd r.pos).dt.fdToPosition =
          I.dt.fdToPosition.set fd r.pos := by
        show r.image.dt.fdToPosition.set fd r.pos = _
        rw [hrun.dt]
      apply hb.set hset
      · exact hrun.pos_le h htaken hget hstay

/-- A read keeps the positions bounded. -/
theorem Bounded.read (hb : I.Bounded) (h : I.Ok) (fd size capacity : Nat) :
    (I.read fd size capacity).2.Bounded := by
  rcases h.read_cases fd size capacity with ⟨_, heq⟩ | ⟨_, heq⟩ | ⟨i, p, hres, hi, hpos, heq⟩
  · rw [heq]
    exact hb
  · rw [heq]
    exact hb
  · rw [heq]
    rcases hturns : I.readTurns i capacity (min size 968) p [] (min size 968) with ⟨dest, p'⟩ | e
    · obtain ⟨htaken, _⟩ := h.descriptor hres hi
      refine hb.set (J := I.setPosition fd p') rfl ?_
      rcases readTurns_position (fun _ hget => (h.layout.inodeOk htaken hget).length_eq) hturns with
        rfl | hle
      · exact hb p' (List.mem_of_getElem? hpos)
      · exact hle
    · exact hb

/-- **Every command that does not drift** keeps the positions bounded. -/
theorem Bounded.after (hb : I.Bounded) (h : I.Ok) (F : HostFiles) (c : Command)
    (hok : ¬ Drifts ⟨I.store, F⟩ c) : (I.after F c).Bounded := by
  cases c with
  | init => exact bounded_formatted
  | readFs => exact hb
  | ls path => exact hb
  | mkdir path => exact hb.same (h.create_dt false path.bytes)
  | touch path => exact hb.same (h.create_dt true path.bytes)
  | «open» path =>
    simp only [Image.after]
    rcases h.openPath_cases path.bytes with ⟨heq, _⟩ | ⟨i, fd, dt, heq, _, _, hdt⟩
    · rw [heq]
      exact hb
    · obtain ⟨_, _, rfl⟩ := reserveDescriptor_eq hdt
      rw [heq]
      exact hb.set rfl (Nat.zero_le 968)
  | close fd =>
    -- the position of a descriptor that is freed becomes zero
    simp only [Image.after, closeFd]
    split
    · show (I.setTable (freeDescriptor I.dt fd)).Bounded
      unfold freeDescriptor
      split
      · exact hb.set rfl (Nat.zero_le 968)
      · exact hb
    · exact hb
  | write fd data => exact hb.written h fd data hok
  | writeFrom fd path =>
    simp only [Image.after]
    split
    · rename_i data hdata
      exact hb.written h fd data fun hpass => hok ⟨data, hdata, hpass⟩
    · exact hb
  | read fd size => exact hb.read h fd size _
  | readTo fd path size => exact hb.read h fd _ _
  | lseek fd pos =>
    simp only [Image.after, seek]
    split
    · exact hb
    · exact hb
    · split
      · exact hb
      · rename_i hlt
        exact hb.set rfl (Nat.le_of_not_le hlt)

/-! ### The loops of a command -/

/-- A position within the largest file selects an entry that is at most one past the list. -/
theorem readEntry_le_blocksCountInInode {p : Nat} (hp : p ≤ 968) :
    readEntry defaultFsInfo p ≤ defaultFsInfo.blocksCountInInode := by
  have hle := readEntry_le defaultFsInfo p
  rw [getMaxDataInBlock_default] at hle
  rw [defaultFsInfo_blocksCountInInode]
  omega

/-- **The turns of a write** stay within the list. -/
theorem Bounded.writesWithin (hb : I.Bounded) (h : I.Ok) (F : HostFiles) (fd : Nat)
    (data : List UInt8) (hpass : ¬ I.store.PassesEnd fd data.length) :
    WritesWithin ⟨I.store, F⟩ fd data := by
  rintro sb dt i p inode turns s m hsb hdt hent hget size hrun
  obtain rfl : I.sb = sb := Option.some.inj hsb
  have hent := descriptor_iff.mp hent
  have hok := h.layout.inodeOk (h.descriptor hent.reserved hent.refers).1 hget
  have hg := h.layout.geometry
  rw [hg]
  apply readEntry_le_blocksCountInInode
  apply (writeLoop_stays fd i size turns hg ?_).run hrun
  show StaysWithin inode.blocksCount (free I.sb.reservedBlocksMask) p size
  have hsize : size = min data.length 968 := by
    show min _ _ = _
    rw [hg, getMaxDataSizeOfAllBlocks_default]
  rw [hsize]
  exact hb.staysWithin hent hok hget hpass

/-- **The turns of a read** stay within the list. -/
theorem Bounded.readsWithin (hb : I.Bounded) (h : I.Ok) (F : HostFiles) (fd size capacity : Nat) :
    ReadsWithin ⟨I.store, F⟩ fd size capacity := by
  rintro sb i p inode turns s m hsb hent hget n hrun
  obtain rfl : I.sb = sb := Option.some.inj hsb
  have hent := descriptor_iff.mp hent
  have htaken := (h.descriptor hent.reserved hent.refers).1
  have hg := h.layout.geometry
  have hpos : p ≤ 968 := hb p (List.mem_of_getElem? hent.position)
  have hn : n ≤ 968 := by
    show min _ _ ≤ _
    rw [hg, getMaxDataSizeOfAllBlocks_default]
    exact Nat.min_le_right _ _
  obtain ⟨L', left, hloop, -⟩ := @Ok.run_readLoop I F [] i n capacity h htaken inode hget turns p
    [] n (Nat.zero_add n) hn (by omega)
  rw [hg]
  apply readEntry_le_blocksCountInInode
  have hrun := hloop.symm.trans hrun
  rcases hturns : I.readTurns i capacity turns p [] n with ⟨dest, p'⟩ | e
  · rw [hturns] at hrun
    cases hrun
    rcases readTurns_position (fun _ hget => (h.layout.inodeOk htaken hget).length_eq) hturns with
      rfl | hle
    · exact hpos
    · exact hle
  · rw [hturns] at hrun
    cases hrun

end Image

/-- **Positions stay bounded** in every run that does not drift, or write a host file onto the
    image, and so do the block indices of every turn of a read, and of a write that does not
    drift. -/
theorem positions_bounded {w : World}
    (hw : ReachableBy (fun w c => ¬ Drifts w c ∧ ¬ c.OntoImage w.files) w) :
    w.store.PositionsBounded ∧
      (∀ fd data, ¬ w.store.PassesEnd fd data.length → WritesWithin w fd data) ∧
      ∀ fd size capacity, ReadsWithin w fd size capacity := by
  obtain ⟨I, hI, hb, hstore⟩ := hw.image Image.Bounded Image.bounded_formatted
    fun I F c h hb hok => hb.after h F c hok.1
  rw [hstore]
  refine ⟨fun dt hdt p hp => ?_, fun fd data => hb.writesWithin hI w.files fd data,
    hb.readsWithin hI w.files⟩
  obtain rfl : I.dt = dt := Option.some.inj hdt
  rw [getMaxDataSizeOfAllBlocks_default]
  exact hb p hp

/-- A descriptor has one position. -/
theorem Store.Descriptor.position_unique {st : Store} {fd i j p q : Nat}
    (h : st.Descriptor fd i p) (h' : st.Descriptor fd j q) : p = q := by
  unfold Store.Descriptor at h h'
  split at h
  · rename_i hdt
    simp only [hdt] at h'
    exact Option.some.inj (h.2.2.symm.trans h'.2.2)
  · exact h.elim

/-- A file is created, opened and written to. -/
theorem positionsBounded_writtenFile :
    (openedWorld.step (.write 0 [1])).store.PositionsBounded ∧
      (∀ fd data, ¬ (openedWorld.step (.write 0 [1])).store.PassesEnd fd data.length →
        WritesWithin (openedWorld.step (.write 0 [1])) fd data) ∧
      ∀ fd size capacity, ReadsWithin (openedWorld.step (.write 0 [1])) fd size capacity := by
  apply positions_bounded
  refine .step _ (.step _ (.step _ (.init _) ⟨id, id⟩) ⟨id, id⟩) ⟨?_, id⟩
  rintro ⟨i, p, inode, hd, hget, hgap, -⟩
  -- the only descriptor is at the start of its file
  have hopen : openedWorld.store.Descriptor 0 1 0 := by decide +kernel
  obtain rfl : p = 0 := hd.position_unique hopen
  exact absurd hgap (Nat.not_lt_zero _)

/-- A write from a gap right below the end of the largest file. -/
def driftedWorld : World :=
  openedWorld.steps [.lseek 0 967, .write 0 [1, 2]]

/-- The image with the drifted position is reached. -/
theorem reachable_driftedWorld : Reachable driftedWorld := by
  unfold driftedWorld
  exact reachable_openedWorld.steps _ (by decide)

/-- A descriptor past the end of the largest file. -/
theorem Store.not_positionsBounded (st : Store) (fd i p : Nat) (hd : st.Descriptor fd i p)
    (hp : 968 < p) : ¬ st.PositionsBounded := by
  intro h
  unfold Store.Descriptor at hd
  split at hd
  · rename_i dt hdt
    have hle := h dt hdt p (List.mem_of_getElem? hd.2.2)
    rw [getMaxDataSizeOfAllBlocks_default] at hle
    exact Nat.not_lt.mpr hle hp
  · exact hd.elim

/-- The file has one block, the write appends two, and the position is 969 then. -/
theorem driftedWorld_not_bounded : ¬ ∀ w : World, Reachable w → w.store.PositionsBounded :=
  fun hall => Store.not_positionsBounded driftedWorld.store 0 1 969 (by decide +kernel) (by decide)
    (hall driftedWorld reachable_driftedWorld)

end MiniExt
