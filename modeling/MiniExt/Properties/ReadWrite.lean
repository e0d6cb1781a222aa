import MiniExt.Runs.Files

namespace MiniExt

open Lib

/-!
# Reading back what was written

A write that starts in the file, or right at its end, is read back.  A write that starts
past a gap is not: its blocks are appended at the end of the block list, and the read looks
for them behind the gap.

* `ReadsBack` — the round trip of one write;
* `readsBack_iff` — exactly when it holds;
* `not_readsBack_gap` — a round trip that fails.
-/

/-- After a complete write, a read from the same position returns what was written. -/
def ReadsBack (w : World) (fd pos : Nat) (data : List UInt8) : Prop :=
  let r := exec (writeToFile fd data) (w.step (.lseek fd pos))
  r.1 = .done (some data.length) →
    (exec (readFile fd data.length data.length) (r.2.step (.lseek fd pos))).1 = .done (some data)

instance (w : World) (fd pos : Nat) (data : List UInt8) : Decidable (ReadsBack w fd pos data) :=
  inferInstanceAs (Decidable (_ → _))

namespace Image

variable {I : Image} {fd i pos : Nat} {inode : Inode} {data : List UInt8}

/-! ### The read after the write -/

section Read

variable {out : List (List UInt8)}

/-- What the chunks of the file hold at the position, the read returns. -/
theorem FileDescriptor.read_chunks (hd : I.FileDescriptor fd i pos inode) (h : I.Ok)
    (hne : data ≠ []) (hlen : pos + data.length ≤ 968)
    (hread : readChunks 121 data.length (I.store.chunks i) pos data.length = data) :
    (I.read fd data.length data.length).1 = .done (some data) := by
  have hsize : min data.length 968 = data.length := Nat.min_eq_left (by omega)
  obtain ⟨v, hv, hoff⟩ := readChunks_ne_nil (by rw [hread]; exact hne)
  rw [← hsize] at hread
  rw [hd.read_eq h (by omega) ?_ ?_ hread (Or.inr (by omega))]
  · intro v' hv'
    rw [hv] at hv'
    cases hv'
    exact hoff.le
  · intro hk
    have hlt := (List.getElem?_eq_some_iff.mp hv).1
    rw [hd.length_chunks h] at hlt
    omega

/-- A read that does not start past the data of its block returns what is left of it. -/
theorem FileDescriptor.read_short (hd : I.FileDescriptor fd i pos inode) (h : I.Ok)
    (hlen : pos + data.length ≤ 968)
    (hoff : ∀ v, (I.store.chunks i)[pos / 121]? = some v → pos % 121 ≤ v.length)
    (hedge : pos / 121 = inode.blocksCount → pos % 121 = 0)
    (hshort : ((I.store.chunks i).drop (pos / 121)).flatten.length < data.length) :
    (I.read fd data.length data.length).1 ≠ .done (some data) := by
  have hsize : min data.length 968 = data.length := Nat.min_eq_left (by omega)
  rw [hd.read_eq h (by omega) hoff hedge rfl (Or.inr (by omega)), hsize,
    readChunks_eq (by decide) _ _ _ _ (Nat.le_refl _) (hd.bounded h), contentFrom]
  intro heq
  have hgot := congrArg List.length (Option.some.inj (Outcome.done.inj heq))
  have hcontent := length_content_le_flatten 121 ((I.store.chunks i).drop (pos / 121))
  rw [List.length_take, List.length_drop] at hgot
  omega

/-- A read that starts past the data of its block. -/
theorem FileDescriptor.read_wraps (hd : I.FileDescriptor fd i pos inode)
    (hne : data ≠ []) (hlen : pos + data.length ≤ 968) (hk : pos / 121 ≤ inode.blocksCount)
    {b : Nat} {s : Slot} (hb : inode.blockIds[pos / 121]? = some b) (hs : I.slots b = some s)
    (hclean : ¬ s.Mixed) (hoff : s.info.dataSize < pos % 121) :
    (I.read fd data.length data.length).1 = .done (some data) ↔
      pos % 121 + data.length ≤ 121 ∧ (s.buffer.drop (pos % 121)).take data.length = data := by
  have hsize : min data.length 968 = data.length := Nat.min_eq_left (by omega)
  have hpos := List.length_pos_iff.mpr hne
  obtain ⟨fuel, hfuel⟩ : ∃ n, data.length = n + 1 := ⟨data.length - 1, by omega⟩
  have hturns := @readTurns_wraps I i data.length inode b s fuel pos data.length hd.record hk hb hs
    hclean hoff (by omega) (by omega)
  rw [← hfuel] at hturns
  simp only [read, hd.reserved, hd.refers, hd.position, hsize, hturns, Nat.lt_irrefl, or_false]
  by_cases hroom : 121 < pos % 121 + data.length
  · simp [hroom, Nat.not_le.mpr hroom]
  · simp [hroom, Nat.not_lt.mp hroom]

end Read

/-! ### The round trip on an image -/

/-- **Without a gap** a complete write is read back. -/
theorem FileDescriptor.readsBack (hd : I.FileDescriptor fd i pos inode) (h : I.Ok)
    (hne : data ≠ []) (hlen : pos + data.length ≤ 968) (hk : pos / 121 ≤ inode.blocksCount)
    (hdone : (I.write fd data).outcome = .done (some data.length)) :
    (((I.written fd data).setPosition fd pos).read fd data.length data.length).1 =
      .done (some data) := by
  obtain ⟨hout, hchunks, inode', hd'⟩ := hd.write_eq h (show data.length ≤ 968 by omega) rfl
  have hK := h.written_ok fd data
  rw [hout] at hdone
  have hrest :
      (writeChunks 0 121 data.length (I.store.chunks i) (I.room inode) pos data).2 = [] := by
    by_contra hr
    rw [if_neg hr] at hdone
    cases hdone
  rw [writeChunks_rest (by decide) _ _ _ _ _ (Nat.le_refl _) (by rwa [hd.length_chunks h]),
    List.drop_eq_nil_iff] at hrest
  have hpos := List.length_pos_iff.mpr hne
  have hread := readChunks_writeChunks (z := (0 : UInt8)) (show 0 < 121 by decide) data.length
    data.length (I.store.chunks i) (I.room inode) pos data (Nat.le_refl _) (Nat.le_refl _)
    (by rwa [hd.length_chunks h]) (by omega)
  rw [← hchunks] at hread
  exact (hd'.setPosition pos).read_chunks (hd'.setPosition_ok hK (by omega)) hne hlen hread

/-- **Past a gap** a complete write is read back only by accident: it is one piece of zeros
    that would follow the one block missing, and the read finds it in the root block. -/
theorem FileDescriptor.readsBack_gap (hd : I.FileDescriptor fd i pos inode) (h : I.Ok)
    (hne : data ≠ []) (hlen : pos + data.length ≤ 968) (hk : inode.blocksCount < pos / 121)
    (hroom : pos % 121 + data.length ≤ 121 * I.room inode) :
    (((I.written fd data).setPosition fd pos).read fd data.length data.length).1 =
        .done (some data) ↔
      pos / 121 = inode.blocksCount + 1 ∧ 0 < pos % 121 ∧ pos % 121 + data.length ≤ 121 ∧
        ∀ x ∈ data, x = 0 := by
  obtain ⟨_, hchunks, inode', hd'⟩ := hd.write_eq h (show data.length ≤ 968 by omega) rfl
  have hK := h.written_ok fd data
  obtain ⟨tail, hwrite, hflat, hnil⟩ := writeChunks_gap (z := (0 : UInt8)) (show 0 < 121 by decide)
    data.length (I.store.chunks i) (I.room inode) pos data hne (Nat.le_refl _)
    (by rwa [hd.length_chunks h]) hroom
  rw [hwrite] at hchunks
  have hcount := hd'.length_chunks hK
  rw [hchunks, List.length_append, hd.length_chunks h, List.length_cons] at hcount
  have hd'' := hd'.setPosition pos
  have hK' := hd'.setPosition_ok hK (show pos < 968 by
    have := List.length_pos_iff.mpr hne
    omega)
  have hchunks' : ((I.written fd data).setPosition fd pos).store.chunks i = _ := hchunks
  generalize (I.written fd data).setPosition fd pos = K at hd'' hK' hchunks'
  -- behind the gap there is less than was written
  have hbehind : ((K.store.chunks i).drop (pos / 121)).flatten.length < data.length := by
    have hsplit : pos / 121 =
        (I.store.chunks i).length + (pos / 121 - inode.blocksCount - 1 + 1) := by
      rw [hd.length_chunks h]
      omega
    rw [hchunks', hsplit, List.drop_length_add_append, List.drop_succ_cons]
    have hsub := congrArg (fun t => t.flatten.length)
      (List.take_append_drop (pos / 121 - inode.blocksCount - 1) tail)
    simp only [List.flatten_append, List.length_append, hflat, List.length_drop] at hsub
    have := List.length_pos_iff.mpr hne
    omega
  have hmod := Nat.mod_lt pos (show 121 > 0 by decide)
  rcases Nat.lt_trichotomy inode'.blocksCount (pos / 121) with hpast | hedge | hin
  · -- behind the end of the list the read finds nothing
    refine iff_of_false (hd''.read_short hK' hlen (fun v hv => ?_) (fun hk => by omega) hbehind)
      (fun hspecial => by omega)
    have hlt := (List.getElem?_eq_some_iff.mp hv).1
    rw [hd''.length_chunks hK'] at hlt
    omega
  · by_cases hzero : pos % 121 = 0
    · refine iff_of_false (hd''.read_short hK' hlen (fun v hv => by omega) (fun _ => hzero) hbehind)
        (fun hspecial => by omega)
    -- the entry after the last one leads to the root block
    obtain ⟨s, hs, hrec, hsize⟩ := hK'.root_slot
    have hk8 : pos / 121 < 8 := by
      have := List.length_pos_iff.mpr hne
      omega
    have hb := (hd''.ok hK').unused hedge.le hk8
    rw [hd''.read_wraps hne hlen hedge.ge hb hs (fun hm => hm.2 hsize) (by omega), hrec.buffer_eq,
      List.drop_replicate, List.take_replicate]
    constructor
    · rintro ⟨hfit, heq⟩
      have htail := hnil (by omega)
      rw [htail, List.length_nil] at hcount
      refine ⟨by omega, by omega, hfit, fun x hx => ?_⟩
      rw [← heq] at hx
      exact List.eq_of_mem_replicate hx
    · rintro ⟨_, _, hfit, hzeros⟩
      refine ⟨hfit, ?_⟩
      rw [List.eq_replicate_of_mem hzeros, List.length_replicate]
      congr 1
      omega
  · -- a block of the write, but not its first one
    have hlong : ¬ pos % 121 + data.length ≤ 121 := by
      intro hfit
      have htail := hnil (by omega)
      rw [htail, List.length_nil] at hcount
      omega
    obtain ⟨b, s, hb, hs, hh, hchunk⟩ := (hd''.ok hK').getElem?_chunks hd''.record hin
    rw [hd''.isFile] at hh
    have hvis := Slot.length_visible_le hh.isData
    refine iff_of_false ?_ (fun hspecial => hlong hspecial.2.2.1)
    by_cases hoff : pos % 121 ≤ s.visible.length
    · refine hd''.read_short hK' hlen (fun v hv => ?_) (fun hk => by omega) hbehind
      rw [hchunk] at hv
      cases hv
      exact hoff
    · rw [hd''.read_wraps hne hlen hin.le hb hs hh.isData.not_mixed (by omega)]
      exact fun hread => hlong hread.1

end Image

/-! ### The round trip -/

section RoundTrip

variable {w : World} {fd i p pos : Nat} {inode : Inode} {data : List UInt8}

/-- **Round trips.**  In every reachable image, for every descriptor of a regular file, a
    write from a position that `lseek` accepts is read back exactly when the position is not
    past a gap, or the write does not find room (there is no complete write then), or the
    bytes written past a gap are the zeros a read finds in the root block. -/
theorem readsBack_iff (hw : Reachable w) (hfd : w.store.OpenFile fd i p inode) (hpos : pos < 968)
    (hne : data ≠ []) (hlen : pos + data.length ≤ 968) :
    ReadsBack w fd pos data ↔
      pos / 121 ≤ inode.blocksCount ∨
        121 * min w.store.freeBlocks (8 - inode.blocksCount) < pos % 121 + data.length ∨
        (pos / 121 = inode.blocksCount + 1 ∧ 0 < pos % 121 ∧ pos % 121 + data.length ≤ 121 ∧
          ∀ x ∈ data, x = 0) := by
  obtain ⟨I, hI, hstore⟩ := hw.image
  rw [hstore] at hfd ⊢
  generalize w.files = F
  have hd := Image.openFile_iff.mp hfd
  have hdJ := hd.setPosition pos
  have hJ := hd.setPosition_ok hI hpos
  have hroom : min I.store.freeBlocks (8 - inode.blocksCount) = (I.setPosition fd pos).room inode :=
    rfl
  rw [hroom]
  have hread : ReadsBack ⟨I.store, F⟩ fd pos data ↔
      (((I.setPosition fd pos).write fd data).outcome = .done (some data.length) →
        ((((I.setPosition fd pos).written fd data).setPosition fd pos).read fd data.length
          data.length).1 = .done (some data)) := by
    obtain ⟨_, _, inode', hd'⟩ := hdJ.write_eq hJ (show data.length ≤ 968 by omega) rfl
    have hK := hJ.written_ok fd data
    simp only [ReadsBack, hd.step_seek hI hpos, hJ.exec_write, hd'.step_seek hK hpos,
      (hd'.setPosition_ok hK hpos).exec_read]
  rw [hread]
  generalize I.setPosition fd pos = J at hdJ hJ
  -- the position lies behind a gap, or not
  rcases Nat.lt_or_ge inode.blocksCount (pos / 121) with hgap | hin
  · obtain ⟨hout, _⟩ := hdJ.write_eq hJ (show data.length ≤ 968 by omega) rfl
    rw [writeChunks_rest_gap (by decide) _ _ _ _ _ (Nat.le_refl _)
      (by rwa [hdJ.length_chunks hJ])] at hout
    by_cases hfits : pos % 121 + data.length ≤ 121 * J.room inode
    · rw [if_pos (List.drop_eq_nil_iff.mpr (by omega))] at hout
      rw [hdJ.readsBack_gap hJ hne hlen hgap hfits]
      constructor
      · exact fun hback => Or.inr (Or.inr (hback hout))
      · rintro (hin | hfull | hzeros)
        · omega
        · omega
        · exact fun _ => hzeros
    · -- the write is cut short
      have hpos' := List.length_pos_iff.mpr hne
      rw [if_neg (fun hrest => hfits (by have := List.drop_eq_nil_iff.mp hrest; omega))] at hout
      refine iff_of_true (fun hdone => ?_) (Or.inr (Or.inl (by omega)))
      rw [hout] at hdone
      cases hdone
  · exact iff_of_true (hdJ.readsBack hJ hne hlen hin) (Or.inl hin)

/-- The path `/f`. -/
def pathF : CString := ⟨[47, 102], by decide⟩

/-- An image with one empty regular file, `/f`, open as descriptor 0. -/
def openedWorld : World :=
  ((World.mk .blank .onlyImage).step .init).steps [.touch pathF, .open pathF]

/-- The image with the open file is reached. -/
theorem reachable_openedWorld : Reachable openedWorld := by
  unfold openedWorld
  exact (Reachable.init _).steps _ (by decide)

/-- A round trip inside the first block of the file. -/
theorem readsBack_openedWorld : ReadsBack openedWorld 0 100 [1, 2] :=
  (readsBack_iff reachable_openedWorld
    (show openedWorld.store.OpenFile 0 1 0 ⟨1, 1, true, [1, 0, 0, 0, 0, 0, 0, 0]⟩ by decide +kernel)
    (by decide) (by decide) (by decide)).mpr (Or.inl (by decide))

/-- A byte written at position 500 of an empty file is lost: the write appends one block,
    and the read looks for the fifth one. -/
theorem not_readsBack_gap : Reachable openedWorld ∧
    openedWorld.store.OpenFile 0 1 0 ⟨1, 1, true, [1, 0, 0, 0, 0, 0, 0, 0]⟩ ∧
    ¬ ReadsBack openedWorld 0 500 [1] :=
  ⟨reachable_openedWorld, by decide +kernel, by decide +kernel⟩

end RoundTrip

end MiniExt
