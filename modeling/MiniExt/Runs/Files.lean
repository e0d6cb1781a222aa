import MiniExt.Runs.Commands
import MiniExt.Invariant.Files

namespace MiniExt

open Lib

/-!
# Reads and writes of regular files

The commands on a descriptor of a regular file, in terms of its chunks: a write is
`Lib.writeChunks`, and a read that starts inside the file is `Lib.readChunks`.  A read that
starts past the data of a block is not: there the difference of the data size and the
position wraps around.

* `Store.dataFrom`, `Store.StartsPast`, `Store.StartsMixed` — what a read finds where it starts;
* `readTurns_content`, `readTurns_wraps` — the loop of a read, by where it starts;
* `readTurns_eq` — the loop on a regular file, as `Lib.readChunks`;
* `FileDescriptor` — a reserved descriptor of a regular file;
* `FileDescriptor.read_eq`, `FileDescriptor.write_eq` — the two commands.
-/

namespace Store

/-- The bytes of a file that a read from `pos` on reaches. -/
def dataFrom (st : Store) (i pos : Nat) : List UInt8 := contentFrom 121 (st.chunks i) pos

/-- A read from `pos` starts past the data of its block: of a block of the file, or of the block
    that the unused entries of the block list lead to. -/
def StartsPast (st : Store) (i pos : Nat) : Prop :=
  pos / 121 ≤ (st.chunks i).length ∧ pos / 121 < 8 ∧
    ((st.chunks i)[pos / 121]?.getD []).length < pos % 121

instance (st : Store) (i pos : Nat) : Decidable (st.StartsPast i pos) :=
  inferInstanceAs (Decidable (_ ∧ _))

/-- A read from `pos` starts in a block on which `read_block` crashes. -/
def StartsMixed (st : Store) (i pos : Nat) : Prop :=
  pos < 121 ∧ ∃ s ∈ st.firstSlot i, s.Mixed

instance (st : Store) (i pos : Nat) : Decidable (st.StartsMixed i pos) :=
  inferInstanceAs (Decidable (_ ∧ _))

end Store

namespace Image

variable {I : Image} {i capacity : Nat} {inode : Inode}

/-- Nothing to read takes no turn. -/
theorem readTurns_zero (fuel pos : Nat) (dest : List UInt8) :
    I.readTurns i capacity fuel pos dest 0 = .done (dest, pos) := by
  cases fuel <;> simp [readTurns]

/-- What a turn of a read copies from a data block. -/
theorem take_drop_buffer {s : Slot} {o n : Nat} (hn : o + n ≤ s.visible.length) :
    (s.buffer.drop o).take n = (s.visible.drop o).take n := by
  rw [Slot.buffer, List.drop_append_of_le_length (by omega),
    List.take_append_of_le_length (by rw [List.length_drop]; omega)]

/-- A block of an inode that can be read: what is visible in it is as long as it says. -/
theorem InodeOk.readable_chunk (hok : I.InodeOk i inode) (hget : I.inodes i = some inode) {k : Nat}
    (hk : k < inode.blocksCount) :
    ∃ b s, inode.blockIds[k]? = some b ∧ I.slots b = some s ∧
      (I.store.chunks i)[k]? = some s.visible ∧
      (¬ s.Mixed → s.visible.length = s.info.dataSize ∧ s.info.dataSize ≤ 121) ∧
      (s.Mixed → k = 0 ∧ I.store.firstSlot i = some s) := by
  obtain ⟨b, s, hb, hs, hh, hchunk⟩ := hok.getElem?_chunks hget hk
  refine ⟨b, s, hb, hs, hchunk, ?_⟩
  have hbody := hh.body
  by_cases hdir : k = 0 ∧ inode.isFile = false
  · rw [if_pos hdir] at hbody
    refine ⟨fun hclean => ?_, fun _ => ⟨hdir.1, ?_⟩⟩
    · obtain ⟨parent, named, hrecords, _⟩ := id hbody
      have hz : s.info.dataSize = 0 := by
        by_contra hz
        exact hclean ⟨hbody.not_isData, hz⟩
      simp [Slot.visible, hrecords, hz]
    · obtain ⟨rfl, _⟩ := hdir
      exact firstSlot_eq (block_eq hget hb hs)
  · rw [if_neg hdir] at hbody
    exact ⟨fun _ => ⟨Slot.length_visible_le hbody, hbody.2.1⟩,
      fun hmixed => absurd hmixed hbody.not_mixed⟩

/-- A turn that starts in the data of a block, or at its end. -/
theorem readTurns_turn {fuel pos need b : Nat} {dest : List UInt8} {s : Slot}
    (hget : I.inodes i = some inode) (hneed : need ≠ 0) (hk : pos / 121 ≤ inode.blocksCount)
    (hb : inode.blockIds[pos / 121]? = some b) (hs : I.slots b = some s) (hclean : ¬ s.Mixed)
    (hvis : s.visible.length = s.info.dataSize) (h121 : s.info.dataSize ≤ 121)
    (hoff : pos % 121 ≤ s.visible.length) {piece : List UInt8}
    (hpiece : (s.visible.drop (pos % 121)).take need = piece) :
    I.readTurns i capacity (fuel + 1) pos dest need =
      if piece = [] then .done (dest, pos)
      else if capacity < dest.length + piece.length then .halted .memoryError
      else
        I.readTurns i capacity fuel (pos + piece.length) (dest ++ piece)
          (need - piece.length) := by
  have hlen : piece.length = min need (s.visible.length - pos % 121) := by
    rw [← hpiece, List.length_take, List.length_drop]
  have hremain : (s.info.dataSize + 2 ^ 32 - pos % 121) % 2 ^ 32 =
      s.visible.length - pos % 121 := by
    omega
  simp only [readTurns, if_neg hneed, hget, if_neg (Nat.not_lt.mpr hk), hb, hs, if_neg hclean,
    hremain]
  by_cases hend : s.visible.length - pos % 121 = 0
  · rw [if_pos hend, if_pos (List.eq_nil_of_length_eq_zero (by omega))]
  have hne : piece ≠ [] := List.ne_nil_of_length_pos (by omega)
  have hn : (if need < s.visible.length - pos % 121 then need
      else s.visible.length - pos % 121) = piece.length := by
    split <;> omega
  have hfits : ¬ 121 < pos % 121 + piece.length := by omega
  have hcopied : (s.buffer.drop (pos % 121)).take piece.length = piece := by
    rw [take_drop_buffer (by omega), ← hpiece, List.length_take, List.length_drop,
      ← List.take_take, List.take_of_length_le (i := s.visible.length - pos % 121)]
    rw [List.length_drop]
  rw [if_neg hend, if_neg hne, hn, hcopied]
  simp only [hfits, false_or]

/-- How a read of `need` more bytes from a position ends, when the position is not past the data of
    its block and the block can be read: it copies what there is, as far as the destination has
    room, and leaves the block list when it gets to the end of a full one. -/
def readData (I : Image) (i capacity : Nat) (inode : Inode) (pos : Nat) (dest : List UInt8)
    (need : Nat) : Outcome Stop (List UInt8 × Nat) :=
  let data := I.store.dataFrom i pos
  if capacity < dest.length + (data.take need).length ∨
      pos / 121 ≤ inode.blocksCount ∧ data.length < need ∧ 968 ≤ pos + data.length then
    .halted .memoryError
  else .done (dest ++ data.take need, pos + (data.take need).length)

/-- Nothing to read yields nothing. -/
theorem readData_zero {pos : Nat} {dest : List UInt8} (hdest : dest.length ≤ capacity) :
    I.readData i capacity inode pos dest 0 = .done (dest, pos) := by
  simp only [readData, List.take_zero, List.length_nil, Nat.add_zero, Nat.not_lt_zero, false_and,
    and_false, or_false, if_neg (Nat.not_lt.mpr hdest), List.append_nil]

/-- Where there is nothing the read ends, but for the end of a full block list. -/
theorem readData_nil {pos need : Nat} {dest : List UInt8} (hdest : dest.length ≤ capacity)
    (hnil : I.store.dataFrom i pos = []) (hend : inode.blocksCount < pos / 121 ∨ pos < 968) :
    I.readData i capacity inode pos dest need = .done (dest, pos) := by
  simp only [readData, hnil, List.take_nil, List.length_nil, Nat.add_zero, List.append_nil]
  rw [if_neg]
  rintro (hcap | ⟨hk, _, hlast⟩)
  · omega
  · omega

/-- A read goes on after a piece of what there is. -/
theorem readData_piece {pos need : Nat} {dest piece : List UInt8}
    (hk : pos / 121 < inode.blocksCount) (hfits : pos % 121 + piece.length ≤ 121)
    (hle : piece.length ≤ need)
    (hrest : I.store.dataFrom i pos = piece ++ I.store.dataFrom i (pos + piece.length)) :
    I.readData i capacity inode (pos + piece.length) (dest ++ piece) (need - piece.length) =
      I.readData i capacity inode pos dest need := by
  have htake : (I.store.dataFrom i pos).take need =
      piece ++ (I.store.dataFrom i (pos + piece.length)).take (need - piece.length) := by
    rw [hrest, List.take_append, List.take_of_length_le hle]
  have hlen : (I.store.dataFrom i pos).length =
      piece.length + (I.store.dataFrom i (pos + piece.length)).length := by
    rw [hrest, List.length_append]
  simp only [readData, htake, hlen, List.length_append, List.append_assoc, Nat.add_assoc]
  refine if_congr (or_congr Iff.rfl ⟨?_, ?_⟩) rfl rfl
  · rintro ⟨_, _, _⟩
    omega
  · rintro ⟨_, _, _⟩
    omega

/-- A turn past the listed blocks finds nothing, and after eight blocks no entry. -/
theorem Ok.readTurns_unlisted (h : I.Ok) (hi : Taken I.sb.reservedInodesMask i)
    (hget : I.inodes i = some inode) {fuel pos need : Nat} {dest : List UInt8} (hneed : need ≠ 0)
    (hdest : dest.length ≤ capacity) (hk : inode.blocksCount ≤ pos / 121)
    (hpast : ¬ I.store.StartsPast i pos) :
    I.readTurns i capacity (fuel + 1) pos dest need =
      I.readData i capacity inode pos dest need := by
  have hok := h.layout.inodeOk hi hget
  have hchunks := hok.length_chunks hget
  have hcount := hok.count_le
  have hnone : (I.store.chunks i)[pos / 121]? = none := List.getElem?_eq_none (by omega)
  rcases Nat.lt_or_eq_of_le hk with hk | hk
  · -- past the list the loop returns
    rw [readData_nil hdest (contentFrom_past hnone) (Or.inl hk), readTurns, if_neg hneed]
    simp only [hget, if_pos hk]
  · rcases Nat.lt_or_eq_of_le hcount with hlt | heq
    · -- right after the list: the root block, which has no data
      have hoff : pos % 121 = 0 := by
        by_contra hoff
        apply hpast
        refine ⟨by omega, by omega, ?_⟩
        rw [hnone]
        exact Nat.pos_of_ne_zero hoff
      obtain ⟨s, hs, _, hz⟩ := h.root_slot
      have hentry := hok.unused hk.le (hk ▸ hlt)
      have hroot : ¬ s.Mixed := fun hm => hm.2 hz
      rw [readData_nil hdest (contentFrom_past hnone) (Or.inr (by omega))]
      simp [readTurns, hneed, hget, ← hk, hk ▸ hentry, hs, hroot, hz, hoff]
    · -- after eight blocks there is no entry
      have hentry : inode.blockIds[pos / 121]? = none :=
        List.getElem?_eq_none (by rw [hok.length_eq]; omega)
      have hnil : I.store.dataFrom i pos = [] := contentFrom_past hnone
      simp only [readData, hnil, List.length_nil, Nat.add_zero]
      rw [if_pos (Or.inr ⟨hk.ge, Nat.pos_of_ne_zero hneed, by omega⟩)]
      simp only [readTurns, if_neg hneed, hget, if_neg (Nat.not_lt.mpr hk.ge), hentry]

/-- After a piece of a block the next turn starts inside the data of the block, or in the next
    one. -/
theorem startsInside_piece {pos n : Nat} {v : List UInt8}
    (hv : (I.store.chunks i)[pos / 121]? = some v) (hn : pos % 121 + n ≤ v.length)
    (h121 : v.length ≤ 121) : ¬ I.store.StartsPast i (pos + n) := by
  rintro ⟨_, _, hlong⟩
  by_cases hfull : pos % 121 + n = 121
  · have hz : (pos + n) % 121 = 0 := by omega
    rw [hz] at hlong
    exact Nat.not_lt_zero _ hlong
  · obtain ⟨hdiv, hmod⟩ := div_add_of_lt (show 0 < 121 by decide) (by omega : pos % 121 + n < 121)
    rw [hdiv, hmod, hv, Option.getD_some] at hlong
    exact absurd hlong (Nat.not_lt.mpr hn)

/-- **The loop** from a position that is not past the data of its block, in a block that can be
    read. -/
theorem Ok.readTurns_content (h : I.Ok) (hi : Taken I.sb.reservedInodesMask i)
    (hget : I.inodes i = some inode) (fuel pos : Nat) (dest : List UInt8) (need : Nat)
    (hneed : need ≤ fuel) (hdest : dest.length ≤ capacity) (hclean : ¬ I.store.StartsMixed i pos)
    (hpast : ¬ I.store.StartsPast i pos) :
    I.readTurns i capacity fuel pos dest need = I.readData i capacity inode pos dest need := by
  have hok := h.layout.inodeOk hi hget
  have hchunks := hok.length_chunks hget
  have hcount := hok.count_le
  -- by induction on the turns: each copies a piece of what there is
  induction fuel generalizing pos dest need with
  | zero =>
    obtain rfl : need = 0 := by omega
    rw [readData_zero hdest, readTurns]
  | succ fuel ih =>
    by_cases hzero : need = 0
    · subst hzero
      rw [readData_zero hdest, readTurns_zero]
    by_cases hk : inode.blocksCount ≤ pos / 121
    · exact h.readTurns_unlisted hi hget hzero hdest hk hpast
    have hk := Nat.lt_of_not_le hk
    obtain ⟨b, s, hb, hs, hchunk, hvis, hmixed⟩ := hok.readable_chunk hget hk
    have hreadable : ¬ s.Mixed := by
      intro hm
      obtain ⟨hk0, hfirst⟩ := hmixed hm
      exact hclean ⟨by omega, s, hfirst, hm⟩
    obtain ⟨hlen, h121⟩ := hvis hreadable
    have hoff : pos % 121 ≤ s.visible.length := by
      by_contra hoff
      apply hpast
      refine ⟨by omega, by omega, ?_⟩
      rw [hchunk]
      exact Nat.lt_of_not_le hoff
    generalize hpiece : (s.visible.drop (pos % 121)).take need = piece
    have hpl : piece.length = min need (s.visible.length - pos % 121) := by
      rw [← hpiece, List.length_take, List.length_drop]
    rw [readTurns_turn hget hzero hk.le hb hs hreadable hlen h121 hoff hpiece]
    by_cases hnil : piece = []
    · -- the position is at the end of the data
      rw [hnil, List.length_nil] at hpl
      rw [if_pos hnil, readData_nil hdest (contentFrom_end (by decide) hchunk (by omega))
        (Or.inr (by omega))]
    have hpos := List.length_pos_of_ne_nil hnil
    have hrest : I.store.dataFrom i pos = piece ++ I.store.dataFrom i (pos + piece.length) := by
      have htake : (s.visible.drop (pos % 121)).take piece.length = piece := by
        rw [hpl, ← List.length_drop, ← List.take_take, List.take_length, hpiece]
      have hsplit := contentFrom_piece (n := piece.length) (show 0 < 121 by decide) hchunk
        (by omega) (by omega)
      rwa [htake] at hsplit
    rw [if_neg hnil, ← readData_piece hk (by omega) (by omega) hrest]
    by_cases hcap : capacity < dest.length + piece.length
    · rw [if_pos hcap, readData, List.length_append]
      exact (if_pos (Or.inl (by omega))).symm
    rw [if_neg hcap]
    apply ih _ _ _ (by omega)
    · rw [List.length_append]
      omega
    · rintro ⟨hlt, hm⟩
      exact hclean ⟨by omega, hm⟩
    · exact startsInside_piece hchunk (by omega) (by omega)

/-- **A read that starts inside the file** is `Lib.readChunks`, unless it goes on past the
    last entry of a full block list. -/
theorem Ok.readTurns_eq (h : I.Ok) (hi : Taken I.sb.reservedInodesMask i)
    (hget : I.inodes i = some inode) (hfile : inode.isFile = true) (fuel pos : Nat)
    (dest : List UInt8) (need : Nat) (hneed : need ≤ fuel) (hsize : need ≤ 968)
    (hcap : dest.length + need ≤ capacity)
    (hoff : ∀ v, (I.store.chunks i)[pos / 121]? = some v → pos % 121 ≤ v.length)
    (hedge : pos / 121 = inode.blocksCount → pos % 121 = 0)
    (hlast : pos + (readChunks 121 fuel (I.store.chunks i) pos need).length < 968 ∨
      pos + need ≤ 968) :
    I.readTurns i capacity fuel pos dest need =
      .done (dest ++ readChunks 121 fuel (I.store.chunks i) pos need,
        pos + (readChunks 121 fuel (I.store.chunks i) pos need).length) := by
  have hok := h.layout.inodeOk hi hget
  have hchunks := hok.length_chunks hget
  have hcount := hok.count_le
  have hclean : ¬ I.store.StartsMixed i pos := by
    rintro ⟨_, s, hs, hmixed⟩
    exact hok.firstSlot_clean hget hfile hs hmixed
  have hpast : ¬ I.store.StartsPast i pos := by
    rintro ⟨hle, _, hlong⟩
    rcases hv : (I.store.chunks i)[pos / 121]? with _ | v
    · have hlen := List.getElem?_eq_none_iff.mp hv
      have hzero := hedge (by omega)
      omega
    · rw [hv] at hlong
      exact Nat.not_lt.mpr (hoff v hv) hlong
  rw [readChunks_eq (by decide) fuel _ pos need hneed (hok.bounded_chunks hget hfile)] at hlast ⊢
  rw [h.readTurns_content hi hget fuel pos dest need hneed (by omega) hclean hpast]
  refine if_neg ?_
  show ¬ (capacity < dest.length + ((I.store.dataFrom i pos).take need).length ∨ _)
  rw [show contentFrom 121 (I.store.chunks i) pos = I.store.dataFrom i pos from rfl,
    List.length_take] at hlast
  rw [List.length_take]
  rintro (hroom | ⟨_, hshort, hfull⟩)
  · omega
  · omega

/-- **A read that starts past the data of a block** takes the difference of the data size
    and the position for a large number: it reads on in the buffer of that block, or past
    its end. -/
theorem readTurns_wraps {b : Nat} {s : Slot} (fuel pos need : Nat)
    (hget : I.inodes i = some inode)
    (hk : pos / 121 ≤ inode.blocksCount) (hb : inode.blockIds[pos / 121]? = some b)
    (hs : I.slots b = some s) (hclean : ¬ s.Mixed) (hoff : s.info.dataSize < pos % 121)
    (hneed : need ≠ 0) (hsize : need ≤ 968) :
    I.readTurns i capacity (fuel + 1) pos [] need =
      if 121 < pos % 121 + need ∨ capacity < need then .halted .memoryError
      else .done ((s.buffer.drop (pos % 121)).take need, pos + need) := by
  have hmod := Nat.mod_lt pos (show 121 > 0 by decide)
  have hremain : (s.info.dataSize + 2 ^ 32 - pos % 121) % 2 ^ 32 =
      s.info.dataSize + 2 ^ 32 - pos % 121 := Nat.mod_eq_of_lt (by omega)
  have hzero : s.info.dataSize + 2 ^ 32 - pos % 121 ≠ 0 := by omega
  have hlt : need < s.info.dataSize + 2 ^ 32 - pos % 121 := by omega
  simp only [readTurns, if_neg hneed, hget, if_neg (Nat.not_lt.mpr hk), hb, hs, if_neg hclean,
    hremain, if_neg hzero, if_pos hlt, List.length_nil, Nat.zero_add, Nat.sub_self,
    readTurns_zero, List.nil_append]

/-! ### Descriptors of regular files -/

/-- Descriptor `fd` is reserved for the regular file `i`, at position `pos`. -/
structure FileDescriptor (I : Image) (fd i pos : Nat) (inode : Inode) : Prop where
  reserved : I.dt.reservedFd[fd]? = some true
  refers : I.dt.fdToInode[fd]? = some i
  position : I.dt.fdToPosition[fd]? = some pos
  record : I.inodes i = some inode
  isFile : inode.isFile = true

/-- An open file is the descriptor of one. -/
theorem openFile_iff {fd pos : Nat} :
    I.store.OpenFile fd i pos inode ↔ I.FileDescriptor fd i pos inode :=
  ⟨fun h => ⟨h.1.1, h.1.2.1, h.1.2.2, h.2.1, h.2.2⟩,
    fun h => ⟨⟨h.reserved, h.refers, h.position⟩, h.record, h.isFile⟩⟩

namespace FileDescriptor

variable {fd pos : Nat}

/-- The inode of an open file is reserved. -/
theorem taken (hd : I.FileDescriptor fd i pos inode) (h : I.Ok) :
    Taken I.sb.reservedInodesMask i :=
  (h.descriptor hd.reserved hd.refers).1

/-- The inode of an open file is well-formed. -/
theorem ok (hd : I.FileDescriptor fd i pos inode) (h : I.Ok) : I.InodeOk i inode := by
  obtain ⟨inode', hget, hok⟩ := h.layout.inode (hd.taken h)
  rw [hd.record] at hget
  cases hget
  exact hok

/-- An open file has as many chunks as blocks. -/
theorem length_chunks (hd : I.FileDescriptor fd i pos inode) (h : I.Ok) :
    (I.store.chunks i).length = inode.blocksCount :=
  (hd.ok h).length_chunks hd.record

/-- The chunks of an open file are bounded. -/
theorem bounded (hd : I.FileDescriptor fd i pos inode) (h : I.Ok) :
    Bounded 121 (I.store.chunks i) :=
  (hd.ok h).bounded_chunks hd.record hd.isFile

/-- Another position of the same descriptor. -/
theorem setPosition (hd : I.FileDescriptor fd i pos inode) (pos' : Nat) :
    (I.setPosition fd pos').FileDescriptor fd i pos' inode where
  reserved := hd.reserved
  refers := hd.refers
  position := by
    have hlt := (List.getElem?_eq_some_iff.mp hd.position).1
    exact List.getElem?_set_self hlt
  record := hd.record
  isFile := hd.isFile

/-- `lseek` to a position it accepts. -/
theorem seek_eq (hd : I.FileDescriptor fd i pos inode) {pos' : Nat} (hpos : pos' < 968) :
    I.seek fd pos' = (.done (), I.setPosition fd pos') := by
  simp only [seek, hd.reserved, if_neg (Nat.not_le.mpr hpos)]

/-- A seek inside the size of a file keeps the invariant. -/
theorem setPosition_ok (hd : I.FileDescriptor fd i pos inode) (h : I.Ok) {pos' : Nat}
    (hpos : pos' < 968) : (I.setPosition fd pos').Ok := by
  have hok := h.seek_ok fd pos'
  rwa [hd.seek_eq hpos] at hok

/-- `lseek` moves the position. -/
theorem step_seek (hd : I.FileDescriptor fd i pos inode) (h : I.Ok) {pos' : Nat}
    (hpos : pos' < 968) (F : HostFiles) :
    (⟨I.store, F⟩ : World).step (.lseek fd pos') = ⟨(I.setPosition fd pos').store, F⟩ := by
  have hstep := h.step_after F (.lseek fd pos')
  rwa [after, hd.seek_eq hpos] at hstep

/-- **`write`** on a regular file. -/
theorem write_eq (hd : I.FileDescriptor fd i pos inode) (h : I.Ok) {data : List UInt8}
    (hlen : data.length ≤ 968) {out : List (List UInt8) × List UInt8}
    (hout : writeChunks 0 121 data.length (I.store.chunks i) (I.room inode) pos data = out) :
    (I.write fd data).outcome =
        (if out.2 = [] then .done (some data.length) else .halted .memoryError) ∧
      (I.written fd data).store.chunks i = out.1 ∧
      ∃ inode', (I.written fd data).FileDescriptor fd i (pos + data.length - out.2.length)
        inode' := by
  have htake : data.take 968 = data := List.take_of_length_le hlen
  -- the descriptor is open, so the loop ran
  obtain ⟨i', pos', r, _, hi', hpos', hrun, hwrite, hwritten⟩ : ∃ i' pos' r,
      I.dt.reservedFd[fd]? = some true ∧ I.dt.fdToInode[fd]? = some i' ∧
        I.dt.fdToPosition[fd]? = some pos' ∧ WriteRun i' I pos' (data.take 968) r ∧
        I.write fd data = finishWrite I.sb fd (data.take 968).length r ∧
        I.written fd data = r.settled fd := by
    rcases h.write_cases fd data with ⟨hres, _⟩ | ⟨hres, _⟩ | hcase
    · rw [hd.reserved] at hres
      cases hres
    · rw [hd.reserved] at hres
      cases hres
    · exact hcase
  rw [hd.refers] at hi'
  cases hi'
  rw [hd.position] at hpos'
  cases hpos'
  rw [htake] at hrun hwrite
  obtain ⟨hchunks, hmoved, hend⟩ := hrun.chunks h (hd.taken h) hd.record hd.isFile data.length
    (Nat.le_refl _)
  rw [hout] at hchunks
  subst hchunks
  have hsettled : r.settled fd = r.image.setPosition fd r.pos := by
    rw [WriteEnd.settled, hend]
    split <;> exact if_neg (by decide)
  obtain ⟨inode', hget', hkind, _⟩ := hrun.inode_grows h (hd.taken h) hd.record
  have hfd : r.image.FileDescriptor fd i pos inode' :=
    ⟨hrun.dt ▸ hd.reserved, hrun.dt ▸ hd.refers, hrun.dt ▸ hd.position, hget',
      hkind.trans hd.isFile⟩
  rw [hwrite, hwritten, hsettled]
  refine ⟨?_, rfl, inode', ?_⟩
  · rw [finishWrite, hend]
    by_cases hrest : r.rest = []
    · simp only [hrest, if_true]
    · simp only [hrest, if_false]
  · have hp : pos + data.length - r.rest.length = r.pos := by omega
    rw [hp]
    exact hfd.setPosition r.pos

/-- **`read`** on a regular file, from a position inside it. -/
theorem read_eq (hd : I.FileDescriptor fd i pos inode) (h : I.Ok) {size : Nat}
    (hcap : min size 968 ≤ capacity)
    (hoff : ∀ v, (I.store.chunks i)[pos / 121]? = some v → pos % 121 ≤ v.length)
    (hedge : pos / 121 = inode.blocksCount → pos % 121 = 0) {got : List UInt8}
    (hgot : readChunks 121 (min size 968) (I.store.chunks i) pos (min size 968) = got)
    (hlast : pos + got.length < 968 ∨ pos + min size 968 ≤ 968) :
    I.read fd size capacity = (.done (some got), I.setPosition fd (pos + got.length)) := by
  have hturns := h.readTurns_eq (hd.taken h) hd.record hd.isFile
    (min size 968) pos [] (min size 968) (Nat.le_refl _) (Nat.min_le_right _ _)
    (by simpa using hcap) hoff hedge (by rwa [hgot])
  rw [hgot, List.nil_append] at hturns
  simp only [read, hd.reserved, hd.refers, hd.position, hturns]

end FileDescriptor

end Image

end MiniExt
