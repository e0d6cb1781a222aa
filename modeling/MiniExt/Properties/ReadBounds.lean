import MiniExt.Properties.ReadWrite

namespace MiniExt

open Lib

/-!
# Reads that leave the file

The loop of `read_file` stops when the block index exceeds the number of blocks, not when it
reaches it, and it subtracts the position from the data size as unsigned numbers.  A read
from a position past the data of its block, or one that runs to the end of a file with no
block left, leaves the file.

* `Store.readEvents` — the entries of the block list and the bytes a read looks at;
* `ReadsInside` — the property;
* `Store.ReadsOutside` — the positions and sizes that break it;
* `readsInside_iff` — that these are all.
-/

/-- Block `k` of an inode. -/
def Store.slotAt (st : Store) (inode : Inode) (k : Nat) : Option Slot :=
  inode.blockIds[k]?.bind st.slots

/-- What a turn of the loop of `read_file` looks at. -/
inductive ReadEvent where
  /-- Entry `k` of `block_ids`. -/
  | entry (k : Nat)
  /-- So many bytes of block `k`, from an offset on; the block has `dataSize` of them. -/
  | copy (k offset size dataSize : Nat)
  deriving DecidableEq, Repr

/-- The event stays in the block list, and in the data of a block of the inode. -/
def ReadEvent.Inside (inode : Inode) : ReadEvent → Prop
  | .entry k => k < 8
  | .copy k offset size dataSize => k < inode.blocksCount ∧ offset + size ≤ dataSize

/-- The bytes an event copies. -/
def ReadEvent.bytes (st : Store) (inode : Inode) : ReadEvent → List UInt8
  | .entry _ => []
  | .copy k offset size _ =>
    match st.slotAt inode k with
    | some s => (s.buffer.drop offset).take size
    | none => []

/-- The events of the loop of `read_file` on an inode, up to its end or the first memory
    error; `copied` bytes are in the buffer, `need` more are wanted. -/
def Store.readEvents (st : Store) (inode : Inode) (capacity : Nat) :
    (fuel : Nat) → (pos copied need : Nat) → List ReadEvent
  | 0, _, _, _ => []
  | fuel + 1, pos, copied, need =>
    if need = 0 then []
    else if inode.blocksCount < pos / 121 then []
    else
      .entry (pos / 121) ::
        match st.slotAt inode (pos / 121) with
        | none => []
        | some s =>
          if s.Mixed then []
          else
            let remain := (s.info.dataSize + 2 ^ 32 - pos % 121) % 2 ^ 32
            if remain = 0 then []
            else
              let n := if need < remain then need else remain
              .copy (pos / 121) (pos % 121) n s.info.dataSize ::
                if 121 < pos % 121 + n ∨ capacity < copied + n then []
                else st.readEvents inode capacity fuel (pos + n) (copied + n) (need - n)

/-- Where the data of an inode ends: after the data of its last block. -/
def Store.fileEnd (st : Store) (inode : Inode) : Nat :=
  121 * (inode.blocksCount - 1) +
    match st.slotAt inode (inode.blocksCount - 1) with
    | some s => s.info.dataSize
    | none => 0

/-- A read on descriptor `fd`, open for an inode at a position, returns what it copied and
    stays inside the file; at the end of the file, or past it, it returns nothing. -/
structure ReadsInside (w : World) (fd pos : Nat) (inode : Inode) (size capacity : Nat) : Prop where
  copied : ∀ bytes, (exec (readFile fd size capacity) w).1 = .done (some bytes) →
    bytes = (w.store.readEvents inode capacity (min size 968) pos 0 (min size 968)).flatMap
      (ReadEvent.bytes w.store inode)
  events : ∀ e ∈ w.store.readEvents inode capacity (min size 968) pos 0 (min size 968),
    e.Inside inode
  atEnd : w.store.fileEnd inode ≤ pos → (exec (readFile fd size capacity) w).1 = .done (some [])

/-! ### The reads that leave -/

/-- The blocks from `k` on are full. -/
def Store.FullFrom (st : Store) (inode : Inode) (k : Nat) : Prop :=
  ∀ j < inode.blocksCount, k ≤ j → (st.slotAt inode j).map (·.info.dataSize) = some 121

instance (st : Store) (inode : Inode) (k : Nat) : Decidable (st.FullFrom inode k) :=
  inferInstanceAs (Decidable (∀ j < inode.blocksCount, _))

/-- The loop leaves the file: it starts past the data of a block, or right after the last
    block but not at its beginning, or it finds no entry after eight full blocks. -/
def Store.LeavesFile (st : Store) (inode : Inode) (capacity pos copied need : Nat) : Prop :=
  0 < need ∧
    if pos / 121 < inode.blocksCount then
      match st.slotAt inode (pos / 121) with
      | some s => ¬ s.Mixed ∧ (s.info.dataSize < pos % 121 ∨
          inode.blocksCount = 8 ∧ st.FullFrom inode (pos / 121) ∧ 968 < pos + need ∧
            968 + copied ≤ pos + capacity)
      | none => False
    else pos / 121 = inode.blocksCount ∧ (pos % 121 ≠ 0 ∨ inode.blocksCount = 8)

/-- The program crashes at the end of the data: `read_block` stops at the header of the last
    block, which counts records and data. -/
def Store.CrashesAtEnd (st : Store) (inode : Inode) (pos need : Nat) : Prop :=
  0 < need ∧ pos / 121 + 1 = inode.blocksCount ∧
    match st.slotAt inode (pos / 121) with
    | some s => s.Mixed ∧ s.info.dataSize ≤ pos % 121
    | none => False

/-- A read of `size` bytes from a position leaves the file, or crashes at its end. -/
def Store.ReadsOutside (st : Store) (inode : Inode) (pos size capacity : Nat) : Prop :=
  st.LeavesFile inode capacity pos 0 (min size 968) ∨ st.CrashesAtEnd inode pos (min size 968)

instance (st : Store) (inode : Inode) (capacity pos copied need : Nat) :
    Decidable (st.LeavesFile inode capacity pos copied need) := by
  unfold Store.LeavesFile
  split
  · split <;> infer_instance
  · infer_instance

instance (st : Store) (inode : Inode) (pos need : Nat) :
    Decidable (st.CrashesAtEnd inode pos need) := by
  unfold Store.CrashesAtEnd
  split <;> infer_instance

instance (st : Store) (inode : Inode) (pos size capacity : Nat) :
    Decidable (st.ReadsOutside inode pos size capacity) :=
  inferInstanceAs (Decidable (_ ∨ _))

namespace Image

variable {I : Image} {i capacity : Nat} {inode : Inode}

/-! ### The events are those of the loop -/

/-- **The events** account for what the loop returns. -/
theorem readTurns_events (hget : I.inodes i = some inode) (fuel pos : Nat) (dest : List UInt8)
    (need : Nat) {dest' : List UInt8} {pos' : Nat}
    (h : I.readTurns i capacity fuel pos dest need = .done (dest', pos')) :
    dest' = dest ++ (I.store.readEvents inode capacity fuel pos dest.length need).flatMap
      (ReadEvent.bytes I.store inode) := by
  induction fuel generalizing pos dest need with
  | zero =>
    cases h
    simp [Store.readEvents]
  | succ fuel ih =>
    unfold readTurns at h
    unfold Store.readEvents
    by_cases hneed : need = 0
    · rw [if_pos hneed] at h ⊢
      cases h
      simp
    simp only [if_neg hneed, hget] at h ⊢
    by_cases hk : inode.blocksCount < pos / 121
    · rw [if_pos hk] at h ⊢
      cases h
      simp
    rw [if_neg hk] at h ⊢
    rcases hb : inode.blockIds[pos / 121]? with _ | b
    · rw [hb] at h
      cases h
    simp only [hb] at h
    rcases hs : I.slots b with _ | s
    · rw [hs] at h
      cases h
    have hslot : I.store.slotAt inode (pos / 121) = some s := by
      simp only [Store.slotAt, hb, Option.bind_some, store_slots, hs]
    simp only [hs, hslot] at h ⊢
    by_cases hmixed : s.Mixed
    · rw [if_pos hmixed] at h
      cases h
    rw [if_neg hmixed] at h ⊢
    generalize (s.info.dataSize + 2 ^ 32 - pos % 121) % 2 ^ 32 = remain at h ⊢
    by_cases hremain : remain = 0
    · rw [if_pos hremain] at h ⊢
      cases h
      simp [ReadEvent.bytes]
    rw [if_neg hremain] at h ⊢
    generalize (if need < remain then need else remain) = n at h ⊢
    by_cases hroom : 121 < pos % 121 + n ∨ capacity < dest.length + n
    · rw [if_pos hroom] at h
      cases h
    rw [if_neg hroom] at h ⊢
    -- the buffer of a block holds at least 121 bytes
    have hpiece : ((s.buffer.drop (pos % 121)).take n).length = n := by
      rw [List.length_take, List.length_drop, Slot.buffer, List.length_append,
        List.length_replicate]
      omega
    have hnext := ih _ _ _ h
    rw [List.length_append, hpiece] at hnext
    have hbytes : (ReadEvent.copy (pos / 121) (pos % 121) n s.info.dataSize).bytes I.store inode =
        (s.buffer.drop (pos % 121)).take n := by
      simp only [ReadEvent.bytes, hslot]
    rw [hnext, List.flatMap_cons, List.flatMap_cons, hbytes, ReadEvent.bytes, List.nil_append,
      List.append_assoc]

/-! ### One turn -/

/-- A block in the list of an inode that fits. -/
theorem InodeOk.slotAt (hok : I.InodeOk i inode) {k : Nat} (hk : k < inode.blocksCount) :
    ∃ s, I.store.slotAt inode k = some s ∧ (¬ s.Mixed → s.info.dataSize ≤ 121) ∧
      (0 < k → ¬ s.Mixed) := by
  obtain ⟨b, s, hb, _, hs, hh⟩ := hok.getElem hk
  have hslot : I.store.slotAt inode k = some s := by
    simp only [Store.slotAt, hb, Option.bind_some, store_slots, hs]
  have hbody := hh.body
  refine ⟨s, hslot, ?_, ?_⟩
  · split at hbody
    · -- a directory block that can be read counts no data
      intro hclean
      rw [Slot.Mixed, not_and, not_not] at hclean
      rw [hclean hbody.not_isData]
      exact Nat.zero_le 121
    · exact fun _ => hbody.2.1
  · intro hk
    rw [if_neg (by omega)] at hbody
    exact hbody.not_mixed

/-- Where the list of an inode ends, the loop finds the root block, or no entry. -/
theorem Ok.slotAt_end (h : I.Ok) (hok : I.InodeOk i inode) :
    inode.blocksCount = 8 ∧ I.store.slotAt inode inode.blocksCount = none ∨
      inode.blocksCount < 8 ∧ ∃ s, I.store.slotAt inode inode.blocksCount = some s ∧ ¬ s.Mixed ∧
        s.info.dataSize = 0 := by
  rcases Nat.lt_or_eq_of_le hok.count_le with hlt | heq
  · obtain ⟨s, hs, _, hsize⟩ := h.root_slot
    refine Or.inr ⟨hlt, s, ?_, fun hm => hm.2 hsize, hsize⟩
    simp only [Store.slotAt, hok.unused (Nat.le_refl _) hlt, Option.bind_some, store_slots, hs]
  · refine Or.inl ⟨heq, ?_⟩
    have hnone : inode.blockIds[inode.blocksCount]? = none :=
      List.getElem?_eq_none (by rw [hok.length_eq, heq])
    simp only [Store.slotAt, hnone, Option.bind_none]

/-- The unsigned difference, when the position is in the data. -/
theorem remain_eq {size off : Nat} (hsize : size ≤ 121) (hoff : off ≤ size) :
    (size + 2 ^ 32 - off) % 2 ^ 32 = size - off := by
  omega

/-- The unsigned difference, when the position is past the data. -/
theorem remain_wraps {size off : Nat} (hoff : size < off) (h121 : off ≤ 121) :
    (size + 2 ^ 32 - off) % 2 ^ 32 ≠ 0 := by
  omega

/-- A turn on a block that is not read past its data. -/
theorem readEvents_inside {pos copied need fuel : Nat} {s : Slot} (hneed : 0 < need)
    (hk : pos / 121 < inode.blocksCount) (hs : I.store.slotAt inode (pos / 121) = some s)
    (hclean : ¬ s.Mixed) (hsize : s.info.dataSize ≤ 121) (hoff : pos % 121 < s.info.dataSize) :
    let n := min need (s.info.dataSize - pos % 121)
    I.store.readEvents inode capacity (fuel + 1) pos copied need =
      .entry (pos / 121) :: .copy (pos / 121) (pos % 121) n s.info.dataSize ::
        if capacity < copied + n then []
        else I.store.readEvents inode capacity fuel (pos + n) (copied + n) (need - n) := by
  have hn : (if need < s.info.dataSize - pos % 121 then need else s.info.dataSize - pos % 121) =
      min need (s.info.dataSize - pos % 121) := by
    split <;> omega
  have hfit : ¬ 121 < pos % 121 + min need (s.info.dataSize - pos % 121) := by omega
  intro n
  rw [Store.readEvents, if_neg hneed.ne', if_neg (by omega), hs]
  simp only [if_neg hclean, remain_eq hsize hoff.le, hn, hfit, false_or]
  rw [if_neg (by omega)]

/-- A turn that starts past the data of its block copies bytes that are not the file's. -/
theorem readEvents_wraps {pos copied need fuel : Nat} {s : Slot} (hneed : 0 < need)
    (hk : pos / 121 ≤ inode.blocksCount) (hs : I.store.slotAt inode (pos / 121) = some s)
    (hclean : ¬ s.Mixed) (hoff : s.info.dataSize < pos % 121) :
    ¬ ∀ e ∈ I.store.readEvents inode capacity (fuel + 1) pos copied need, e.Inside inode := by
  have hwraps := remain_wraps hoff (Nat.mod_lt pos (by decide)).le
  rw [Store.readEvents, if_neg hneed.ne', if_neg (by omega), hs]
  simp only [if_neg hclean, if_neg hwraps]
  intro hall
  have hcopy := (hall _ (List.mem_cons_of_mem _ (List.mem_cons_self ..))).2
  omega

/-- A turn right after the list, or at the end of the data of its block, copies nothing. -/
theorem readEvents_stop {pos copied need fuel : Nat} {s : Slot} (hneed : 0 < need)
    (hk : pos / 121 ≤ inode.blocksCount) (hs : I.store.slotAt inode (pos / 121) = some s)
    (hstop : s.Mixed ∨ s.info.dataSize = pos % 121) :
    I.store.readEvents inode capacity (fuel + 1) pos copied need = [.entry (pos / 121)] := by
  rw [Store.readEvents, if_neg hneed.ne', if_neg (by omega), hs]
  by_cases hmixed : s.Mixed
  · simp only [if_pos hmixed]
  · have hzero : (s.info.dataSize + 2 ^ 32 - pos % 121) % 2 ^ 32 = 0 := by
      rw [hstop.resolve_left hmixed, Nat.add_sub_cancel_left, Nat.mod_self]
    simp only [if_neg hmixed, hzero, if_true]

/-! ### The loop -/

/-- A turn on a clean block leaves the file when it starts past the data, or when the loop
    gets to the end of a full list. -/
theorem leavesFile_clean {pos copied need : Nat} {s : Slot} (hneed : 0 < need)
    (hk : pos / 121 < inode.blocksCount) (hs : I.store.slotAt inode (pos / 121) = some s)
    (hclean : ¬ s.Mixed) :
    I.store.LeavesFile inode capacity pos copied need ↔
      s.info.dataSize < pos % 121 ∨ inode.blocksCount = 8 ∧ I.store.FullFrom inode (pos / 121) ∧
        968 < pos + need ∧ 968 + copied ≤ pos + capacity := by
  simp only [Store.LeavesFile, if_pos hk, hs, hneed, hclean, not_false_eq_true, true_and]

/-- The blocks from `k` on are full when block `k` is and those after it are. -/
theorem fullFrom_iff {k : Nat} {s : Slot} (hk : k < inode.blocksCount)
    (hs : I.store.slotAt inode k = some s) :
    I.store.FullFrom inode k ↔ s.info.dataSize = 121 ∧ I.store.FullFrom inode (k + 1) := by
  constructor
  · intro hfull
    have hfirst := hfull k hk (Nat.le_refl k)
    rw [hs, Option.map_some] at hfirst
    exact ⟨Option.some.inj hfirst, fun j hj hle => hfull j hj (by omega)⟩
  · rintro ⟨hsize, hrest⟩ j hj hle
    rcases Nat.lt_or_eq_of_le hle with hlt | rfl
    · exact hrest j hj hlt
    · rw [hs, Option.map_some, hsize]

/-- **A turn** that copies the rest of its block and goes on leaves it open whether the loop
    leaves the file. -/
theorem Ok.leavesFile_step (hok : I.InodeOk i inode) {pos copied need n : Nat}
    {s : Slot} (hk : pos / 121 < inode.blocksCount)
    (hs : I.store.slotAt inode (pos / 121) = some s) (hclean : ¬ s.Mixed)
    (hsize : s.info.dataSize ≤ 121) (hoff : pos % 121 < s.info.dataSize)
    (hn : n = s.info.dataSize - pos % 121) (hmore : n < need) (hroom : copied + n ≤ capacity) :
    I.store.LeavesFile inode capacity (pos + n) (copied + n) (need - n) ↔
      I.store.LeavesFile inode capacity pos copied need := by
  have hpos := Nat.div_add_mod pos 121
  have hcount := hok.count_le
  rw [leavesFile_clean (by omega) hk hs hclean, fullFrom_iff hk hs]
  by_cases hfull : s.info.dataSize = 121
  · -- the next turn starts at the next block
    have hdiv : (pos + n) / 121 = pos / 121 + 1 := by omega
    have hmod : (pos + n) % 121 = 0 := by omega
    rcases Nat.lt_or_ge (pos / 121 + 1) inode.blocksCount with hnext | hend
    · obtain ⟨s', hs', _, hclean'⟩ := hok.slotAt hnext
      rw [leavesFile_clean (by omega) (by rwa [hdiv]) (by rwa [hdiv]) (hclean' (Nat.succ_pos _)),
        hdiv, hmod]
      constructor
      · rintro (hpast | ⟨height, hrest, hsize, hcap⟩)
        · omega
        · exact Or.inr ⟨height, ⟨hfull, hrest⟩, by omega, by omega⟩
      · rintro (hpast | ⟨height, ⟨_, hrest⟩, hsize, hcap⟩)
        · omega
        · exact Or.inr ⟨height, hrest, by omega, by omega⟩
    · have hlast : (pos + n) / 121 = inode.blocksCount := by omega
      have hrest : I.store.FullFrom inode (pos / 121 + 1) := fun j hj hle => by omega
      unfold Store.LeavesFile
      rw [if_neg (by omega)]
      constructor
      · rintro ⟨_, _, hbad⟩
        have height : inode.blocksCount = 8 := by omega
        exact Or.inr ⟨height, ⟨hfull, hrest⟩, by omega, by omega⟩
      · rintro (hpast | ⟨height, _⟩)
        · omega
        · exact ⟨by omega, hlast, Or.inr height⟩
  · -- the next turn finds nothing more in the block
    have hdiv : (pos + n) / 121 = pos / 121 := by omega
    have hmod : (pos + n) % 121 = s.info.dataSize := by omega
    rw [leavesFile_clean (by omega) (by rwa [hdiv]) (by rwa [hdiv]) hclean, hdiv, hmod,
      fullFrom_iff hk hs]
    constructor
    · rintro (hpast | ⟨_, ⟨hsize, _⟩, _⟩)
      · omega
      · exact absurd hsize hfull
    · rintro (hpast | ⟨_, ⟨hsize, _⟩, _⟩)
      · omega
      · exact absurd hsize hfull

/-- A turn on a block with nothing to copy ends the loop. -/
theorem InodeOk.readEvents_stops_iff (hok : I.InodeOk i inode)
    {pos copied need fuel : Nat} {s : Slot}
    (hneed : 0 < need) (hk : pos / 121 < inode.blocksCount)
    (hs : I.store.slotAt inode (pos / 121) = some s)
    (hstops : ¬ s.Mixed → s.info.dataSize ≤ pos % 121) :
    (∀ e ∈ I.store.readEvents inode capacity (fuel + 1) pos copied need, e.Inside inode) ↔
      ¬ I.store.LeavesFile inode capacity pos copied need := by
  have hentry : (ReadEvent.entry (pos / 121)).Inside inode :=
    show pos / 121 < 8 from Nat.lt_of_lt_of_le hk hok.count_le
  by_cases hmixed : s.Mixed
  · rw [readEvents_stop hneed hk.le hs (Or.inl hmixed)]
    refine iff_of_true (by simpa using hentry) ?_
    simp [Store.LeavesFile, hk, hs, hmixed]
  rw [leavesFile_clean hneed hk hs hmixed]
  rcases Nat.lt_or_eq_of_le (hstops hmixed) with hoff | hoff
  · exact iff_of_false (readEvents_wraps hneed hk.le hs hmixed hoff) (not_not.mpr (Or.inl hoff))
  · rw [readEvents_stop hneed hk.le hs (Or.inr hoff), fullFrom_iff hk hs]
    refine iff_of_true (by simpa using hentry) ?_
    rintro (hpast | ⟨_, ⟨hfull, _⟩, _⟩)
    · omega
    · have := Nat.mod_lt pos (show 121 > 0 by decide)
      omega

/-- A turn right after the list of the inode finds the root block there, or no entry. -/
theorem Ok.readEvents_after_list_iff (h : I.Ok) (hok : I.InodeOk i inode)
    {pos copied need fuel : Nat} (hneed : 0 < need) (hk : pos / 121 = inode.blocksCount) :
    (∀ e ∈ I.store.readEvents inode capacity (fuel + 1) pos copied need, e.Inside inode) ↔
      ¬ I.store.LeavesFile inode capacity pos copied need := by
  have hleaves : I.store.LeavesFile inode capacity pos copied need ↔
      pos % 121 ≠ 0 ∨ inode.blocksCount = 8 := by
    simp [Store.LeavesFile, hk, hneed]
  rw [hleaves]
  rcases h.slotAt_end hok with ⟨height, hnone⟩ | ⟨hlt, s, hs, hclean, hzero⟩
  · -- `block_ids` has no entry here
    refine iff_of_false (fun hall => ?_) (not_not.mpr (Or.inr height))
    have hentry := hall (.entry (pos / 121)) (by
      rw [Store.readEvents, if_neg hneed.ne', if_neg (by omega)]
      exact List.mem_cons_self ..)
    exact absurd hentry (show ¬ pos / 121 < 8 by omega)
  · rw [← hk] at hs
    rcases Nat.eq_zero_or_pos (pos % 121) with hoff | hoff
    · rw [readEvents_stop hneed hk.le hs (Or.inr (by omega))]
      refine iff_of_true ?_ (by omega)
      simpa [ReadEvent.Inside] using (show pos / 121 < 8 by omega)
    · exact iff_of_false (readEvents_wraps hneed hk.le hs hclean (by omega)) (by omega)

/-- Further on the loop looks at nothing. -/
theorem readEvents_past_list_iff {pos copied need fuel : Nat} (hneed : 0 < need)
    (hk : inode.blocksCount < pos / 121) :
    (∀ e ∈ I.store.readEvents inode capacity (fuel + 1) pos copied need, e.Inside inode) ↔
      ¬ I.store.LeavesFile inode capacity pos copied need := by
  refine iff_of_true ?_ ?_
  · rw [Store.readEvents, if_neg hneed.ne', if_pos hk]
    exact fun e he => absurd he List.not_mem_nil
  · rintro ⟨_, hleaves⟩
    rw [if_neg (by omega)] at hleaves
    omega

/-- **The loop** stays in the file exactly when it does not start past the data of a block
    and does not run to the end of a full list. -/
theorem Ok.readEvents_iff (h : I.Ok) (hok : I.InodeOk i inode)
    (capacity fuel pos copied need : Nat) (hfuel : need ≤ fuel) :
    (∀ e ∈ I.store.readEvents inode capacity fuel pos copied need, e.Inside inode) ↔
      ¬ I.store.LeavesFile inode capacity pos copied need := by
  -- by induction on the turns: a turn that copies goes on with less to read
  induction fuel generalizing pos copied need with
  | zero =>
    refine iff_of_true (by simp [Store.readEvents]) fun hleaves => ?_
    have := hleaves.1
    omega
  | succ fuel ih =>
    rcases Nat.eq_zero_or_pos need with rfl | hneed
    · exact iff_of_true (by simp [Store.readEvents]) fun hleaves => absurd hleaves.1 (by decide)
    rcases Nat.lt_trichotomy (pos / 121) inode.blocksCount with hk | hk | hk
    case inr.inr.inl => exact h.readEvents_after_list_iff hok hneed hk
    case inr.inr.inr => exact readEvents_past_list_iff hneed hk
    obtain ⟨s, hs, hsize, _⟩ := hok.slotAt hk
    by_cases hstops : ¬ s.Mixed → s.info.dataSize ≤ pos % 121
    · exact hok.readEvents_stops_iff hneed hk hs hstops
    obtain ⟨hclean, hoff⟩ := Classical.not_imp.mp hstops
    have hoff := Nat.lt_of_not_le hoff
    rw [readEvents_inside hneed hk hs hclean (hsize hclean) hoff]
    have hentry : (ReadEvent.entry (pos / 121)).Inside inode :=
      show pos / 121 < 8 from Nat.lt_of_lt_of_le hk hok.count_le
    have hcopy : (ReadEvent.copy (pos / 121) (pos % 121)
        (min need (s.info.dataSize - pos % 121)) s.info.dataSize).Inside inode :=
      ⟨hk, by omega⟩
    simp only [List.forall_mem_cons, hentry, hcopy, true_and]
    generalize hn : min need (s.info.dataSize - pos % 121) = n
    have hsize := hsize hclean
    have hcount := hok.count_le
    by_cases hcap : capacity < copied + n
    · -- the destination has no room for the bytes
      rw [if_pos hcap, leavesFile_clean hneed hk hs hclean]
      refine iff_of_true (by simp) ?_
      rintro (hpast | ⟨_, _, _, hroom⟩)
      · omega
      · omega
    rw [if_neg hcap, ih _ _ _ (by omega)]
    by_cases hmore : n < need
    · rw [Ok.leavesFile_step hok hk hs hclean hsize hoff (by omega) hmore (by omega)]
    · -- the request ends in this block
      have hlast : ¬ I.store.LeavesFile inode capacity pos copied need := by
        rw [leavesFile_clean hneed hk hs hclean]
        rintro (hpast | ⟨_, _, hsize, _⟩)
        · omega
        · omega
      exact iff_of_true (fun hleaves => by have := hleaves.1; omega) hlast

/-! ### The end of the file -/

/-- The loop at the end of the data of its block. -/
theorem readTurns_stop {pos need : Nat} {s : Slot} (fuel : Nat) (hget : I.inodes i = some inode)
    (hk : pos / 121 ≤ inode.blocksCount) (hs : I.store.slotAt inode (pos / 121) = some s)
    (hclean : ¬ s.Mixed) (hoff : s.info.dataSize = pos % 121) :
    I.readTurns i capacity fuel pos [] need = .done ([], pos) := by
  obtain ⟨b, hb, hs⟩ := Option.bind_eq_some_iff.mp hs
  rw [store_slots] at hs
  have hzero : (s.info.dataSize + 2 ^ 32 - pos % 121) % 2 ^ 32 = 0 := by
    rw [hoff, Nat.add_sub_cancel_left, Nat.mod_self]
  cases fuel with
  | zero => rfl
  | succ fuel =>
    rw [readTurns]
    by_cases hneed : need = 0
    · rw [if_pos hneed]
    · simp only [if_neg hneed, hget, if_neg (Nat.not_lt.mpr hk), hb, hs, if_neg hclean, hzero,
        if_true]

/-- The loop on a block that `read_block` crashes at. -/
theorem readTurns_mixed {pos need : Nat} {s : Slot} (capacity fuel : Nat) (dest : List UInt8)
    (hget : I.inodes i = some inode) (hneed : 0 < need) (hk : pos / 121 ≤ inode.blocksCount)
    (hs : I.store.slotAt inode (pos / 121) = some s) (hmixed : s.Mixed) :
    I.readTurns i capacity (fuel + 1) pos dest need = .halted .memoryError := by
  obtain ⟨b, hb, hs⟩ := Option.bind_eq_some_iff.mp hs
  rw [store_slots] at hs
  rw [readTurns]
  simp only [if_neg hneed.ne', hget, if_neg (Nat.not_lt.mpr hk), hb, hs, if_pos hmixed]

/-- The loop past the list. -/
theorem readTurns_past {pos need : Nat} (fuel : Nat) (dest : List UInt8)
    (hget : I.inodes i = some inode) (hk : inode.blocksCount < pos / 121) :
    I.readTurns i capacity fuel pos dest need = .done (dest, pos) := by
  cases fuel with
  | zero => rfl
  | succ fuel =>
    rw [readTurns]
    by_cases hneed : need = 0
    · rw [if_pos hneed]
    · simp only [if_neg hneed, hget, if_pos hk]

/-- **At the end** of the file, or past it, the loop stops at once, unless it leaves the file
    or crashes. -/
theorem Ok.readTurns_at_end (h : I.Ok) (hok : I.InodeOk i inode) (hget : I.inodes i = some inode)
    {pos need : Nat} (hend : I.store.fileEnd inode ≤ pos)
    (hstays : ¬ I.store.LeavesFile inode capacity pos 0 need)
    (hgoes : ¬ I.store.CrashesAtEnd inode pos need) (fuel : Nat) :
    I.readTurns i capacity fuel pos [] need = .done ([], pos) := by
  rcases Nat.eq_zero_or_pos need with rfl | hneed
  · exact readTurns_zero fuel pos []
  have hcount := hok.count_pos
  obtain ⟨s, hs, _, _⟩ := hok.slotAt (show inode.blocksCount - 1 < inode.blocksCount by omega)
  simp only [Store.fileEnd, hs] at hend
  rcases Nat.lt_trichotomy (pos / 121) inode.blocksCount with hk | hk | hk
  · -- the position is in the last block
    have hlast : pos / 121 = inode.blocksCount - 1 := by omega
    have hdata : s.info.dataSize ≤ pos % 121 := by omega
    rw [← hlast] at hs
    have hclean : ¬ s.Mixed := by
      intro hmixed
      apply hgoes
      refine ⟨hneed, by omega, ?_⟩
      rw [hs]
      exact ⟨hmixed, hdata⟩
    refine readTurns_stop fuel hget hk.le hs hclean
      (le_antisymm hdata (Nat.not_lt.mp fun hoff => ?_))
    exact hstays ((leavesFile_clean hneed hk hs hclean).mpr (Or.inl hoff))
  · -- it is right after the last block
    have hstays : ¬ (pos % 121 ≠ 0 ∨ inode.blocksCount = 8) := by
      intro hleaves
      apply hstays
      refine ⟨hneed, ?_⟩
      rw [if_neg (by omega)]
      exact ⟨hk, hleaves⟩
    rcases h.slotAt_end hok with ⟨height, _⟩ | ⟨_, s, hs, hclean, hzero⟩
    · exact absurd (Or.inr height) hstays
    · rw [← hk] at hs
      exact readTurns_stop fuel hget hk.le hs hclean (by omega)
  · exact readTurns_past fuel [] hget hk

/-- `read_file` on a reserved descriptor is its loop. -/
theorem read_of_entry {fd pos : Nat} (hent : I.dt.Entry fd i pos) (size capacity : Nat) :
    (I.read fd size capacity).1 =
      (I.readTurns i capacity (min size 968) pos [] (min size 968)).map fun r => some r.1 := by
  simp only [read, hent.reserved, hent.refers, hent.position]
  rcases I.readTurns i capacity (min size 968) pos [] (min size 968) with r | e
  · rfl
  · rfl

end Image

/-! ### The result -/

/-- **Reads.**  In every reachable image, for every reserved descriptor, every size and every
    room in the destination, the read stays inside the file exactly when it does not start
    past the data of a block, does not run to the end of a full list, and does not find a
    last block that `read_block` crashes at, at the end of the data. -/
theorem readsInside_iff {w : World} (hw : Reachable w) {fd i pos : Nat} {inode : Inode}
    (hfd : w.store.Descriptor fd i pos) (hget : w.store.inodes i = some inode)
    (size capacity : Nat) :
    ReadsInside w fd pos inode size capacity ↔ ¬ w.store.ReadsOutside inode pos size capacity := by
  obtain ⟨I, hI, hstore⟩ := hw.image
  rw [hstore] at hfd hget ⊢
  generalize w.files = F
  have hent := Image.descriptor_iff.mp hfd
  have hok := hI.layout.inodeOk (hI.descriptor hent.reserved hent.refers).1 hget
  rw [Image.store_inodes] at hget
  have hread : (exec (readFile fd size capacity) ⟨I.store, F⟩).1 =
      (I.readTurns i capacity (min size 968) pos [] (min size 968)).map fun r => some r.1 := by
    rw [hI.exec_read]
    exact Image.read_of_entry hent size capacity
  have hevents := hI.readEvents_iff hok capacity (min size 968) pos 0 (min size 968)
    (Nat.le_refl _)
  constructor
  · -- the read leaves the file, or crashes at the end of it
    rintro ⟨_, hinside, hatEnd⟩ (hleaves | ⟨hneed, hlast, hcrashes⟩)
    · exact hevents.mp hinside hleaves
    · obtain ⟨s, hs, _⟩ := hok.slotAt (show pos / 121 < inode.blocksCount by omega)
      rw [hs] at hcrashes
      obtain ⟨fuel, hfuel⟩ : ∃ n, min size 968 = n + 1 := ⟨min size 968 - 1, by omega⟩
      have hhalts := Image.readTurns_mixed capacity fuel [] hget hneed (by omega) hs hcrashes.1
      rw [← hfuel] at hhalts
      have hback := hatEnd (by
        have hpos := Nat.div_add_mod pos 121
        rw [Store.fileEnd, show inode.blocksCount - 1 = pos / 121 by omega]
        simp only [hs]
        omega)
      rw [hread, hhalts] at hback
      cases hback
  · -- the read returns what its copies gave it, and they stay inside
    intro hstays
    rw [Store.ReadsOutside, not_or] at hstays
    refine ⟨fun bytes hbytes => ?_, hevents.mpr hstays.1, fun hend => ?_⟩
    · rw [hread] at hbytes
      rcases hturns : I.readTurns i capacity (min size 968) pos [] (min size 968) with ⟨dest, p⟩ | e
      · rw [hturns] at hbytes
        cases hbytes
        exact Image.readTurns_events hget _ _ _ _ hturns
      · rw [hturns] at hbytes
        cases hbytes
    · rw [hread, hI.readTurns_at_end hok hget hend hstays.1 hstays.2]
      rfl

/-- A read from the beginning of an empty file. -/
theorem readsInside_openedWorld :
    ReadsInside openedWorld 0 0 ⟨1, 1, true, [1, 0, 0, 0, 0, 0, 0, 0]⟩ 10 10 :=
  (readsInside_iff reachable_openedWorld (show openedWorld.store.Descriptor 0 1 0 by decide +kernel)
    (by decide +kernel) 10 10).mpr (by decide +kernel)

/-- A read whose events do not stay inside. -/
theorem not_readsInside_of_event {w : World} {fd pos : Nat} {inode : Inode} {size capacity : Nat}
    {e : ReadEvent}
    (hmem : e ∈ w.store.readEvents inode capacity (min size 968) pos 0 (min size 968))
    (hout : ¬ e.Inside inode) : ¬ ReadsInside w fd pos inode size capacity :=
  fun hinside => hout (hinside.events e hmem)

/-- A read from position 50 of an empty file copies ten bytes the file does not have. -/
theorem not_readsInside_past : Reachable (openedWorld.step (.lseek 0 50)) ∧
    (openedWorld.step (.lseek 0 50)).store.Descriptor 0 1 50 ∧
    (openedWorld.step (.lseek 0 50)).store.inodes 1 =
      some ⟨1, 1, true, [1, 0, 0, 0, 0, 0, 0, 0]⟩ ∧
    ¬ ReadsInside (openedWorld.step (.lseek 0 50)) 0 50
      ⟨1, 1, true, [1, 0, 0, 0, 0, 0, 0, 0]⟩ 10 10 :=
  ⟨reachable_openedWorld.step id, by decide +kernel, by decide +kernel,
    not_readsInside_of_event (e := .copy 0 50 10 0) (by decide +kernel)
      (fun hinside => absurd hinside.2 (by decide))⟩

end MiniExt
