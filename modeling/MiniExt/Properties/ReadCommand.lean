import MiniExt.Interface.Printing
import MiniExt.Properties.ReadBounds

namespace MiniExt

open Lib

/-!
# What the read command shows

`read` of the client passes the requested size to `read_file`, ignores how many bytes came back
and ends the string at the requested size.  So a request beyond the buffer stores past its end,
and a request that is answered with fewer bytes shows whatever the buffer held behind them,
unless one of the bytes read ends the string before.

* `ShowsRead` — the property, for what the buffer held before;
* `Store.Shows` — the requests that meet it, in terms of the file and the position;
* `readCommand_shows_iff` — that these are all.
-/

/-- The command stores inside its buffer, and prints, up to the first NUL, the bytes that
    `read_file` returned; it prints nothing more when `read_file` does not return. -/
structure ShowsRead (w : World) (fd size : Nat) (data : List UInt8) : Prop where
  inBounds : ((Printing.readCommand fd size data).exec w).outcome ≠ .halted .memoryError
  shown : ∀ readed,
    ((Printing.readFile fd size commandBufferLength).exec w).outcome = .done readed →
    ((Printing.readCommand fd size data).exec w).output =
      ((Printing.readFile fd size commandBufferLength).exec w).output ++
        [.stdout "Readed: %s\n" [.string ((readed.getD []).takeWhile (· ≠ 0))]]
  quiet : ∀ e, ((Printing.readFile fd size commandBufferLength).exec w).outcome = .halted e →
    ((Printing.readCommand fd size data).exec w).output =
      ((Printing.readFile fd size commandBufferLength).exec w).output

/-- Nothing is requested, or the first block does not crash `read_block` and the request fits the
    buffer and is answered in full: from a buffer of a block when it starts past the data, and
    with what the file holds otherwise, or with less that has a NUL. -/
def Store.Shows (st : Store) (fd size : Nat) : Prop :=
  size = 0 ∨ ∃ i pos, st.Descriptor fd i pos ∧ ¬ st.StartsMixed i pos ∧
    size < commandBufferLength ∧
      if st.StartsPast i pos then pos % 121 + size ≤ 121
      else size ≤ (st.dataFrom i pos).length ∨
        0 ∈ st.dataFrom i pos ∧ pos + (st.dataFrom i pos).length < 968

/-! ### What is in the buffer -/

section Shown

variable {got data : List UInt8} {size : Nat}

/-- A string that ends inside its first part. -/
theorem takeWhile_append_of_nul (h : (0 : UInt8) ∈ got) (rest : List UInt8) :
    (got ++ rest).takeWhile (· ≠ 0) = got.takeWhile (· ≠ 0) := by
  induction got with
  | nil => exact absurd h List.not_mem_nil
  | cons x got ih =>
    rw [List.cons_append, List.takeWhile_cons, List.takeWhile_cons]
    by_cases hx : x = 0
    · rw [if_neg (by simp [hx]), if_neg (by simp [hx])]
    · rw [ih ((List.mem_cons.mp h).resolve_left fun heq => hx heq.symm)]

/-- The buffer after bytes were copied to its beginning and the string was ended behind them. -/
theorem set_memcpy (hle : got.length ≤ size) :
    (memcpy data 0 got).set size 0 =
      got ++ (data.drop got.length).set (size - got.length) 0 := by
  rw [memcpy, List.take_zero, List.nil_append, Nat.zero_add, List.set_append_right _ _ hle]

/-- **The string in the buffer** is what was read, whatever the buffer held before, exactly when
    as much was read as the string is long or the string ends inside it. -/
theorem shown_iff (hle : got.length ≤ size) (hsize : size < commandBufferLength) :
    (∀ data : List UInt8, data.length = commandBufferLength →
      ((memcpy data 0 got).set size 0).takeWhile (· ≠ 0) = got.takeWhile (· ≠ 0)) ↔
      size ≤ got.length ∨ 0 ∈ got := by
  constructor
  · intro hall
    by_contra hnot
    obtain ⟨hlt, hnul⟩ := not_or.mp hnot
    -- a buffer without a NUL
    have hshown := hall (List.replicate commandBufferLength 1) List.length_replicate
    rw [set_memcpy hle, List.drop_replicate] at hshown
    obtain ⟨n, hn⟩ : ∃ n, commandBufferLength - got.length = n + 1 :=
      ⟨commandBufferLength - got.length - 1, by omega⟩
    obtain ⟨m, hm⟩ : ∃ m, size - got.length = m + 1 := ⟨size - got.length - 1, by omega⟩
    have hgot : ∀ x ∈ got, decide (x ≠ 0) = true := fun x hx => by
      simpa using fun heq : x = 0 => hnul (heq ▸ hx)
    rw [hn, hm, List.replicate_succ, List.set_cons_succ, List.takeWhile_append_of_pos hgot,
      List.takeWhile_cons_of_pos (by decide), List.takeWhile_eq_self_iff.mpr hgot] at hshown
    have hlen := congrArg List.length hshown
    rw [List.length_append, List.length_cons] at hlen
    omega
  · rintro (hfull | hnul) data hlen
    · obtain rfl : size = got.length := Nat.le_antisymm hfull hle
      rw [set_memcpy hle, Nat.sub_self]
      by_cases hnul : (0 : UInt8) ∈ got
      · exact takeWhile_append_of_nul hnul _
      · have hgot : ∀ x ∈ got, decide (x ≠ 0) = true := fun x hx => by
          simpa using fun heq : x = 0 => hnul (heq ▸ hx)
        obtain ⟨x, rest, hrest⟩ : ∃ x rest, data.drop got.length = x :: rest :=
          List.exists_cons_of_ne_nil fun hnil => by
            have := List.drop_eq_nil_iff.mp hnil
            omega
        rw [hrest, List.set_cons_zero, List.takeWhile_append_of_pos hgot,
          List.takeWhile_cons_of_neg (by simp), List.append_nil,
          List.takeWhile_eq_self_iff.mpr hgot]
    · rw [set_memcpy hle]
      exact takeWhile_append_of_nul hnul _

end Shown

namespace Image

variable {I : Image} {F : HostFiles} {i fd pos size capacity : Nat} {inode : Inode}

/-! ### The command, by what `read_file` does -/

/-- The command is `read_file`, the end of the string, and its print. -/
theorem Ok.showsRead_iff (h : I.Ok) (data : List UInt8) :
    ShowsRead ⟨I.store, F⟩ fd size data ↔
      match (I.read fd size commandBufferLength).1 with
      | .halted e => e ≠ .memoryError
      | .done readed => size < commandBufferLength ∧
          ((memcpy data 0 (readed.getD [])).set size 0).takeWhile (· ≠ 0) =
            (readed.getD []).takeWhile (· ≠ 0) := by
  -- the messages do not change the outcome
  have houtcome : (I.read fd size commandBufferLength).1 =
      ((Printing.readFile fd size commandBufferLength).exec ⟨I.store, F⟩).outcome := by
    have hsilent := Printing.exec_silent (Printing.readFile fd size commandBufferLength)
      ⟨I.store, F⟩
    rw [Printing.silent_readFile, h.exec_read] at hsilent
    exact congrArg Prod.fst hsilent
  rcases hrun : (Printing.readFile fd size commandBufferLength).run hostHandler.printing
    ((⟨I.store, F⟩ : World).start, []) with ⟨o, m, out⟩
  have hread : (Printing.readFile fd size commandBufferLength).exec ⟨I.store, F⟩ =
      ⟨o, ⟨m.store, m.files⟩, out⟩ := by
    rw [Printing.exec, hrun]
  rw [houtcome, hread]
  rcases o with readed | e
  · -- the terminator is stored past the buffer
    by_cases hsize : commandBufferLength ≤ size
    · have hexec : ((Printing.readCommand fd size data).exec ⟨I.store, F⟩).outcome =
          .halted .memoryError := by
        rw [Printing.exec, Printing.readCommand, Prog.run_bind, hrun, follow_done, if_pos hsize]
        rfl
      exact iff_of_false (fun hshows => hshows.inBounds hexec)
        fun hfits => Nat.not_lt.mpr hsize hfits.1
    · have hexec : (Printing.readCommand fd size data).exec ⟨I.store, F⟩ =
          ⟨.done (), ⟨m.store, m.files⟩, out ++ [.stdout "Readed: %s\n"
            [.string (((memcpy data 0 (readed.getD [])).set size 0).takeWhile (· ≠ 0))]]⟩ := by
        rw [Printing.exec, Printing.readCommand, Prog.run_bind, hrun, follow_done, if_neg hsize]
        rfl
      constructor
      · -- the prints agree where their arguments do
        intro hshows
        have hshown := hshows.shown readed (by rw [hread])
        rw [hexec, hread] at hshown
        refine ⟨Nat.lt_of_not_le hsize, ?_⟩
        injection List.append_cancel_left hshown with hprint
        injection hprint with _ hargs
        injection hargs with harg
        injection harg
      · rintro ⟨_, hbytes⟩
        refine ⟨?_, fun readed' hreaded' => ?_, fun e he => ?_⟩
        · rw [hexec]
          exact fun heq => by cases heq
        · rw [hread] at hreaded'
          cases hreaded'
          rw [hexec, hread, hbytes]
        · rw [hread] at he
          cases he
  · have hexec : (Printing.readCommand fd size data).exec ⟨I.store, F⟩ =
        ⟨.halted e, ⟨m.store, m.files⟩, out⟩ := by
      rw [Printing.exec, Printing.readCommand, Prog.run_bind, hrun, follow_halted]
    constructor
    · intro hshows heq
      exact hshows.inBounds (by rw [hexec, heq])
    · intro hne
      refine ⟨?_, fun readed hreaded => ?_, fun _ _ => ?_⟩
      · rw [hexec]
        exact fun heq => hne (Outcome.halted.inj heq)
      · rw [hread] at hreaded
        cases hreaded
      · rw [hexec, hread]

/-- The command, whatever its buffer held before. -/
theorem Ok.shows_all_iff (h : I.Ok) (hle : ∀ readed,
    (I.read fd size commandBufferLength).1 = .done readed → (readed.getD []).length ≤ size) :
    (∀ data : List UInt8, data.length = commandBufferLength →
      ShowsRead ⟨I.store, F⟩ fd size data) ↔
      match (I.read fd size commandBufferLength).1 with
      | .halted e => e ≠ .memoryError
      | .done readed => size < commandBufferLength ∧
          (size ≤ (readed.getD []).length ∨ 0 ∈ readed.getD []) := by
  have hzeros : (List.replicate commandBufferLength (0 : UInt8)).length = commandBufferLength :=
    List.length_replicate
  simp only [h.showsRead_iff]
  rcases hread : (I.read fd size commandBufferLength).1 with readed | e
  · have hlen := hle readed hread
    constructor
    · intro hall
      have hsize := (hall _ hzeros).1
      exact ⟨hsize, (shown_iff hlen hsize).mp fun data hdata => (hall data hdata).2⟩
    · rintro ⟨hsize, hbytes⟩ data hdata
      exact ⟨hsize, (shown_iff hlen hsize).mpr hbytes data hdata⟩
  · exact ⟨fun hall => hall _ hzeros, fun hne _ _ => hne⟩

/-! ### Where the read starts -/

/-- Past the data of a block: zeros behind it, or a memory error. -/
theorem Ok.readTurns_startsPast (h : I.Ok) (hi : Taken I.sb.reservedInodesMask i)
    (hget : I.inodes i = some inode) (hclean : ¬ I.store.StartsMixed i pos)
    (hpast : I.store.StartsPast i pos) {need : Nat} (fuel : Nat) (hneed : need ≠ 0)
    (hsize : need ≤ 968) :
    ∃ bytes, (pos % 121 + need ≤ 121 → bytes.length = need) ∧
      I.readTurns i capacity (fuel + 1) pos [] need =
        if 121 < pos % 121 + need ∨ capacity < need then .halted .memoryError
        else .done (bytes, pos + need) := by
  have hok := h.layout.inodeOk hi hget
  have hchunks := hok.length_chunks hget
  obtain ⟨hk, hk8, hlong⟩ := hpast
  obtain ⟨b, s, hb, hs, hsclean, hoff⟩ : ∃ b s, inode.blockIds[pos / 121]? = some b ∧
      I.slots b = some s ∧ ¬ s.Mixed ∧ s.info.dataSize < pos % 121 := by
    rcases Nat.lt_or_eq_of_le (hchunks ▸ hk) with hlt | heq
    · obtain ⟨b, s, hb, hs, hchunk, hvis, hmixed⟩ := hok.readable_chunk hget hlt
      have hsclean : ¬ s.Mixed := by
        intro hm
        obtain ⟨hk0, hfirst⟩ := hmixed hm
        exact hclean ⟨by omega, s, hfirst, hm⟩
      rw [hchunk, Option.getD_some, (hvis hsclean).1] at hlong
      exact ⟨b, s, hb, hs, hsclean, hlong⟩
    · -- the unused entries lead to the root block, which has no data
      obtain ⟨s, hs, _, hz⟩ := h.root_slot
      exact ⟨0, s, hok.unused heq.ge hk8, hs, fun hm => hm.2 hz, by omega⟩
  refine ⟨(s.buffer.drop (pos % 121)).take need, fun hfits => ?_,
    readTurns_wraps fuel pos need hget (by omega) hb hs hsclean hoff hneed hsize⟩
  rw [List.length_take, List.length_drop, Slot.buffer, List.length_append, List.length_replicate]
  omega

/-- A block that counts both records and data crashes the program. -/
theorem Ok.read_startsMixed (h : I.Ok) (hent : I.dt.Entry fd i pos) (hsize : size ≠ 0)
    (hmixed : I.store.StartsMixed i pos) (capacity : Nat) :
    (I.read fd size capacity).1 = .halted .memoryError := by
  obtain ⟨inode, hget, hok⟩ := h.layout.inode (h.descriptor hent.reserved hent.refers).1
  obtain ⟨hpos, s, hs, hm⟩ := hmixed
  obtain ⟨b, s', hb, _, hs', _⟩ := hok.getElem hok.count_pos
  rw [firstSlot_eq (block_eq hget hb hs')] at hs
  cases hs
  have hzero : pos / 121 = 0 := by omega
  have hslot : I.store.slotAt inode (pos / 121) = some s := by
    simp only [Store.slotAt, hzero, hb, Option.bind_some, store_slots, hs']
  obtain ⟨fuel, hfuel⟩ : ∃ n, min size 968 = n + 1 := ⟨min size 968 - 1, by omega⟩
  rw [read_of_entry hent, hfuel,
    readTurns_mixed capacity fuel [] hget (by omega) (by omega) hslot hm]
  rfl

/-- Past the data of its block a read is answered in full, when the block holds that much. -/
theorem Ok.shows_startsPast_iff (h : I.Ok) (hent : I.dt.Entry fd i pos) (hsize : size ≠ 0)
    (hclean : ¬ I.store.StartsMixed i pos) (hpast : I.store.StartsPast i pos) :
    (∀ data : List UInt8, data.length = commandBufferLength →
      ShowsRead ⟨I.store, F⟩ fd size data) ↔
      size < commandBufferLength ∧ pos % 121 + size ≤ 121 := by
  obtain ⟨inode, hget, _⟩ := h.layout.inode (h.descriptor hent.reserved hent.refers).1
  obtain ⟨fuel, hfuel⟩ : ∃ n, min size 968 = n + 1 := ⟨min size 968 - 1, by omega⟩
  have hneed : min size 968 ≠ 0 := by omega
  obtain ⟨bytes, hbytes, hturns⟩ := h.readTurns_startsPast
    (h.descriptor hent.reserved hent.refers).1 hget hclean hpast fuel hneed (Nat.min_le_right _ _)
  rw [← hfuel] at hturns
  have hread := read_of_entry hent size commandBufferLength
  rw [hturns] at hread
  have hlength : commandBufferLength = 256 := rfl
  by_cases hfits : 121 < pos % 121 + min size 968 ∨ commandBufferLength < min size 968
  · rw [if_pos hfits] at hread
    rw [h.shows_all_iff (by rw [hread]; exact fun _ heq => by cases heq), hread]
    exact iff_of_false (fun hne => hne rfl) (by omega)
  · rw [if_neg hfits] at hread
    have hlen := hbytes (by omega)
    rw [h.shows_all_iff ?_, hread]
    · refine iff_of_true ⟨by omega, Or.inl ?_⟩ ⟨by omega, by omega⟩
      show size ≤ bytes.length
      omega
    · rw [hread]
      intro readed heq
      cases heq
      show bytes.length ≤ size
      omega

/-- Elsewhere it is answered with what the file holds. -/
theorem Ok.shows_data_iff (h : I.Ok) (hent : I.dt.Entry fd i pos)
    (hclean : ¬ I.store.StartsMixed i pos) (hpast : ¬ I.store.StartsPast i pos) :
    (∀ data : List UInt8, data.length = commandBufferLength →
      ShowsRead ⟨I.store, F⟩ fd size data) ↔
      size < commandBufferLength ∧ (size ≤ (I.store.dataFrom i pos).length ∨
        0 ∈ I.store.dataFrom i pos ∧ pos + (I.store.dataFrom i pos).length < 968) := by
  have htaken := (h.descriptor hent.reserved hent.refers).1
  obtain ⟨inode, hget, hok⟩ := h.layout.inode htaken
  have hchunks := hok.length_chunks hget
  have hread := read_of_entry hent size commandBufferLength
  rw [h.readTurns_content htaken hget _ pos [] _ (Nat.le_refl _) (Nat.zero_le _) hclean hpast,
    readData] at hread
  have hlist : I.store.dataFrom i pos ≠ [] → pos / 121 < inode.blocksCount := by
    intro hne
    by_contra hk
    exact hne (contentFrom_past (List.getElem?_eq_none (by omega)))
  have hlength : commandBufferLength = 256 := rfl
  generalize I.store.dataFrom i pos = found at hread hlist ⊢
  rw [List.length_nil, Nat.zero_add, List.length_take] at hread
  -- the read leaves the buffer or the file
  by_cases hleaves : commandBufferLength < min (min size 968) found.length ∨
      pos / 121 ≤ inode.blocksCount ∧ found.length < min size 968 ∧ 968 ≤ pos + found.length
  · rw [if_pos hleaves] at hread
    rw [h.shows_all_iff (by rw [hread]; exact fun _ heq => by cases heq), hread]
    refine iff_of_false (fun hne => hne rfl) ?_
    rintro ⟨hsize, hfull | ⟨_, hend⟩⟩
    · omega
    · omega
  rw [if_neg hleaves] at hread
  rw [h.shows_all_iff ?_, hread]
  · show size < commandBufferLength ∧ (size ≤ (found.take (min size 968)).length ∨
      0 ∈ found.take (min size 968)) ↔ _
    rw [List.length_take]
    rcases Nat.lt_or_ge found.length size with hshort | henough
    · -- the answer is all there is
      constructor
      · rintro ⟨hsize, hfull | hnul⟩
        · omega
        · have hmem := List.mem_of_mem_take hnul
          have hk := hlist (List.ne_nil_of_mem hmem)
          exact ⟨hsize, Or.inr ⟨hmem, by omega⟩⟩
      · rintro ⟨hsize, hfull | ⟨hnul, _⟩⟩
        · omega
        · refine ⟨hsize, Or.inr ?_⟩
          rwa [List.take_of_length_le (by omega)]
    · constructor
      · rintro ⟨hsize, _⟩
        exact ⟨hsize, Or.inl henough⟩
      · rintro ⟨hsize, _⟩
        exact ⟨hsize, Or.inl (by omega)⟩
  · rw [hread]
    intro readed heq
    cases heq
    show (found.take (min size 968)).length ≤ size
    rw [List.length_take]
    omega

/-- Nothing is read, and nothing is shown. -/
theorem Ok.shows_zero (h : I.Ok) (hent : I.dt.Entry fd i pos) (data : List UInt8)
    (hdata : data.length = commandBufferLength) : ShowsRead ⟨I.store, F⟩ fd 0 data := by
  have hread := read_of_entry hent 0 commandBufferLength
  rw [Nat.zero_min, readTurns_zero, Outcome.map_done] at hread
  refine (h.shows_all_iff ?_).mpr ?_ data hdata
  · rw [hread]
    intro readed heq
    cases heq
    exact Nat.le_refl _
  · rw [hread]
    exact ⟨by decide, Or.inl (Nat.zero_le _)⟩

/-- **The read command** on a reserved descriptor. -/
theorem Ok.shows_reserved_iff (h : I.Ok) (hent : I.dt.Entry fd i pos) (size : Nat) :
    (∀ data : List UInt8, data.length = commandBufferLength →
      ShowsRead ⟨I.store, F⟩ fd size data) ↔ I.store.Shows fd size := by
  rcases Nat.eq_zero_or_pos size with rfl | hpos
  · exact iff_of_true (h.shows_zero hent) (Or.inl rfl)
  have hshows : I.store.Shows fd size ↔ ¬ I.store.StartsMixed i pos ∧
      size < commandBufferLength ∧ if I.store.StartsPast i pos then pos % 121 + size ≤ 121
        else size ≤ (I.store.dataFrom i pos).length ∨
          0 ∈ I.store.dataFrom i pos ∧ pos + (I.store.dataFrom i pos).length < 968 := by
    refine (or_iff_right hpos.ne').trans ⟨?_, fun hcases =>
      ⟨i, pos, descriptor_iff.mpr hent, hcases⟩⟩
    rintro ⟨i', pos', hd, hcases⟩
    obtain ⟨rfl, rfl⟩ := hent.unique (descriptor_iff.mp hd)
    exact hcases
  rw [hshows]
  by_cases hmixed : I.store.StartsMixed i pos
  · refine iff_of_false ?_ fun hcases => hcases.1 hmixed
    have hread := h.read_startsMixed hent hpos.ne' hmixed commandBufferLength
    rw [h.shows_all_iff (by rw [hread]; exact fun _ heq => by cases heq), hread]
    exact fun hne => hne rfl
  rw [and_iff_right hmixed]
  by_cases hpast : I.store.StartsPast i pos
  · rw [h.shows_startsPast_iff hent hpos.ne' hmixed hpast, if_pos hpast]
  · rw [h.shows_data_iff hent hmixed hpast, if_neg hpast]

/-- On a closed descriptor nothing is read, but the string is ended at the requested size. -/
theorem Ok.shows_closed_iff (h : I.Ok) (hres : I.dt.reservedFd[fd]? = some false) (size : Nat) :
    (∀ data : List UInt8, data.length = commandBufferLength →
      ShowsRead ⟨I.store, F⟩ fd size data) ↔ I.store.Shows fd size := by
  have hread : (I.read fd size commandBufferLength).1 = .done none := by
    simp only [read, hres]
  rw [h.shows_all_iff (by rw [hread]; rintro _ ⟨⟩; exact Nat.zero_le _), hread]
  constructor
  · rintro ⟨_, hzero | hnul⟩
    · exact Or.inl (Nat.le_zero.mp hzero)
    · exact absurd hnul List.not_mem_nil
  · rintro (rfl | ⟨i, pos, hd, _⟩)
    · exact ⟨by decide, Or.inl (Nat.le_refl _)⟩
    · have hreserved := (descriptor_iff.mp hd).reserved
      rw [hres] at hreserved
      cases hreserved

end Image

/-- **The read command** stores inside its buffer and shows what was read, whatever the buffer
    held before, exactly for the requests in `Store.Shows`. -/
theorem readCommand_shows_iff {w : World} (hw : Reachable w) {fd : Nat} (hfd : fd < 16)
    (size : Nat) :
    (∀ data : List UInt8, data.length = commandBufferLength → ShowsRead w fd size data) ↔
      w.store.Shows fd size := by
  obtain ⟨I, hI, hstore⟩ := hw.image
  rw [hstore]
  rcases hI.read_cases fd size commandBufferLength with
    ⟨hres, _⟩ | ⟨hres, _⟩ | ⟨i, pos, hres, hi, hpos, _⟩
  · exact absurd (hI.reservedFd_none_iff.mp hres) (Nat.not_le.mpr hfd)
  · exact hI.shows_closed_iff hres size
  · exact hI.shows_reserved_iff ⟨hres, hi, hpos⟩ size

/-- Eight bytes were written, and the position is at the first of them. -/
def rewoundWorld : World :=
  openedWorld.steps [.write 0 [1, 2, 3, 4, 5, 6, 7, 8], .lseek 0 0]

/-- The image with the rewound position is reached. -/
theorem reachable_rewoundWorld : Reachable rewoundWorld := by
  unfold rewoundWorld
  exact reachable_openedWorld.steps _ (by decide)

/-- The eight bytes are read and shown. -/
theorem readCommand_shows_rewound :
    ShowsRead rewoundWorld 0 8 (List.replicate commandBufferLength 1) := by
  refine (readCommand_shows_iff reachable_rewoundWorld (by decide) 8).mpr ?_ _ List.length_replicate
  refine Or.inr ⟨1, 0, by decide +kernel, by decide +kernel, by decide, ?_⟩
  decide +kernel

/-- One byte more than there is: the ninth byte that is printed was in the buffer before. -/
theorem readCommand_shows_garbage : ¬ ∀ (w : World) (fd size : Nat) (data : List UInt8),
    Reachable w → fd < 16 → data.length = commandBufferLength → ShowsRead w fd size data := by
  intro hall
  have hshows := hall rewoundWorld 0 9 (List.replicate commandBufferLength 1)
    reachable_rewoundWorld (by decide) List.length_replicate
  have hread : ((Printing.readFile 0 9 commandBufferLength).exec rewoundWorld).outcome =
      .done (some [1, 2, 3, 4, 5, 6, 7, 8]) := by decide +kernel
  have hshown := hshows.shown _ hread
  revert hshown
  decide +kernel

end MiniExt
