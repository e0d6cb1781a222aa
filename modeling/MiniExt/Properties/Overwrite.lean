import MiniExt.Properties.ReadWrite

namespace MiniExt

open Lib

/-!
# Overwriting, and running out of room

A write recomputes the data size of every block it touches from its own end.  So a write
that ends inside a block cuts off what the block held behind it, and with it everything
that follows.  A write that finds no room runs the epilogue twice, and the second run uses
what the first one released.

* `contents` — what reading a file from its start yields;
* `overlays_iff` — exactly when a write is an overlay of the content;
* `CleanShortWrite`, `not_cleanShortWrite` — no write that runs out returns.
-/

/-- What reading the file of a descriptor from position 0 to its end yields. -/
def contents (w : World) (fd : Nat) : Outcome Stop (Option (List UInt8)) :=
  (exec (readFile fd 968 968) (w.step (.lseek fd 0))).1

/-- After `lseek` and `write`, the content is the old one with the new bytes laid over. -/
def Overlays (w : World) (fd pos : Nat) (data c : List UInt8) : Prop :=
  contents ((w.step (.lseek fd pos)).step (.write fd data)) fd = .done (some (overlay c pos data))

instance (w : World) (fd pos : Nat) (data c : List UInt8) : Decidable (Overlays w fd pos data c) :=
  inferInstanceAs (Decidable (_ = _))

namespace Image

variable {I : Image} {F : HostFiles} {fd i p pos : Nat} {inode : Inode} {data : List UInt8}

/-! ### The content of a file -/

/-- The content of a file has room in its blocks. -/
theorem FileDescriptor.length_content_le (hd : I.FileDescriptor fd i p inode) (h : I.Ok) :
    (content 121 (I.store.chunks i)).length ≤ 121 * inode.blocksCount := by
  have hle := Lib.length_content_le (hd.bounded h)
  rwa [hd.length_chunks h] at hle

/-- **Reading from the start** yields the content of the chunks. -/
theorem FileDescriptor.contents_eq (hd : I.FileDescriptor fd i p inode) (h : I.Ok) :
    contents ⟨I.store, F⟩ fd = .done (some (content 121 (I.store.chunks i))) := by
  have hd' := hd.setPosition 0
  have h' := hd.setPosition_ok h (show 0 < 968 by decide)
  have hlen := hd.length_content_le h
  have hcount := (hd.ok h).count_le
  have hread : readChunks 121 (min 968 968) ((I.setPosition fd 0).store.chunks i) 0 (min 968 968) =
      content 121 (I.store.chunks i) := by
    rw [readChunks_eq (by decide) _ _ _ _ (Nat.le_refl _) (hd'.bounded h')]
    have hall : (content 121 (I.store.chunks i)).length ≤ 968 := by omega
    exact List.take_of_length_le hall
  rw [contents, hd.step_seek h (by decide), h'.exec_read,
    hd'.read_eq h' (by decide) (fun v _ => Nat.zero_le _) (fun _ => rfl) hread (Or.inr (by decide))]

/-- `write` as a step of the world. -/
theorem Ok.step_write (h : I.Ok) (fd : Nat) (data : List UInt8) :
    (⟨I.store, F⟩ : World).step (.write fd data) = ⟨(I.written fd data).store, F⟩ :=
  h.step_after F (.write fd data)

/-! ### Overwriting -/

/-- The content after a write that finds room. -/
theorem FileDescriptor.content_written (hd : I.FileDescriptor fd i pos inode) (h : I.Ok)
    (hgap : I.store.NoGaps i) (hpos : pos ≤ (content 121 (I.store.chunks i)).length)
    (hne : data ≠ []) (hlen : data.length ≤ 968)
    (hroom : pos + data.length ≤ 121 * (inode.blocksCount + I.room inode)) :
    content 121 ((I.written fd data).store.chunks i) =
      (content 121 (I.store.chunks i)).take pos ++ data ++
        (if 121 ∣ pos + data.length then
          (content 121 (I.store.chunks i)).drop (pos + data.length) else []) := by
  obtain ⟨_, hchunks, _⟩ := hd.write_eq h hlen rfl
  rw [hchunks]
  exact content_writeChunks (by decide) _ _ _ _ _ hne (Nat.le_refl _) hgap.gapFree hpos
    (by rwa [hd.length_chunks h])

/-- The content after a write ends where the blocks end. -/
theorem FileDescriptor.length_content_written_le (hd : I.FileDescriptor fd i pos inode) (h : I.Ok)
    (hlen : data.length ≤ 968) :
    (content 121 ((I.written fd data).store.chunks i)).length ≤
      121 * (inode.blocksCount + I.room inode) := by
  obtain ⟨_, hchunks, inode', hd'⟩ := hd.write_eq h hlen rfl
  have hK := h.written_ok fd data
  refine (hd'.length_content_le hK).trans (Nat.mul_le_mul_left 121 ?_)
  rw [← hd'.length_chunks hK, hchunks, ← hd.length_chunks h]
  exact (length_writeChunks_le _ _ _ _ _).2

end Image

section Overwrite

variable {w : World} {fd i p pos : Nat} {inode : Inode} {data c : List UInt8}

/-- **Overlays.**  For a reachable file without gaps, a write is an overlay of the content
    exactly when it finds room and either reaches the end of the content or ends on a block
    boundary: a write that ends inside a block cuts the content off there. -/
theorem overlays_iff (hw : Reachable w) (hfd : w.store.OpenFile fd i p inode)
    (hgap : w.store.NoGaps i) (hc : contents w fd = .done (some c))
    (hpos : pos ≤ c.length) (hmax : pos < 968) (hne : data ≠ []) (hlen : pos + data.length ≤ 968) :
    Overlays w fd pos data c ↔
      (c.length ≤ pos + data.length ∨ 121 ∣ pos + data.length) ∧
        pos + data.length ≤ 121 * (inode.blocksCount + w.store.freeBlocks) := by
  obtain ⟨I, hI, hstore⟩ := hw.image
  rw [hstore] at hfd hgap hc ⊢
  generalize w.files = F at hc
  have hd := Image.openFile_iff.mp hfd
  rw [hd.contents_eq hI] at hc
  obtain rfl : content 121 (I.store.chunks i) = c := Option.some.inj (Outcome.done.inj hc)
  have hdJ := hd.setPosition pos
  have hJ := hd.setPosition_ok hI hmax
  have hroom : I.room inode = min I.store.freeBlocks (8 - inode.blocksCount) := rfl
  obtain ⟨_, _, inode', hd'⟩ := hdJ.write_eq hJ (show data.length ≤ 968 by omega) rfl
  -- the contents are those of the chunks
  have hover : Overlays ⟨I.store, F⟩ fd pos data (content 121 (I.store.chunks i)) ↔
      content 121 (((I.setPosition fd pos).written fd data).store.chunks i) =
        overlay (content 121 (I.store.chunks i)) pos data := by
    rw [Overlays, hd.step_seek hI hmax, hJ.step_write, hd'.contents_eq (hJ.written_ok fd data)]
    exact ⟨fun h => Option.some.inj (Outcome.done.inj h), fun h => by rw [h]⟩
  have hfree : (⟨I.store, F⟩ : World).store.freeBlocks = I.store.freeBlocks := rfl
  rw [hover, hfree]
  by_cases hfits : pos + data.length ≤ 121 * (inode.blocksCount + I.room inode)
  · have hwritten := hdJ.content_written hJ ⟨hgap.gapFree⟩ hpos hne (by omega) hfits
    have hchunks : (I.setPosition fd pos).store.chunks i = I.store.chunks i := rfl
    rw [hwritten, hchunks, overlay_eq_iff]
    have hin : pos + data.length ≤ 121 * (inode.blocksCount + I.store.freeBlocks) := by omega
    by_cases hdvd : 121 ∣ pos + data.length
    · simp [hdvd, hin]
    · simp only [hdvd, if_false, or_false, hin, and_true]
      exact eq_comm.trans List.drop_eq_nil_iff
  · -- what was written does not even hold the new bytes
    refine iff_of_false (fun heq => ?_) (fun hin => by have := (hd.ok hI).count_le; omega)
    have hle := hdJ.length_content_written_le hJ (show data.length ≤ 968 by omega)
    have hover := length_overlay data hpos
    rw [← heq] at hover
    exact hfits (hover.trans hle)

/-- An image with one regular file, `/f`, that holds two bytes. -/
def filledWorld : World := openedWorld.step (.write 0 [1, 2])

/-- The image with the file of two bytes is reached. -/
theorem reachable_filledWorld : Reachable filledWorld := by
  unfold filledWorld
  exact reachable_openedWorld.step id

/-- Both bytes replaced. -/
theorem overlays_filledWorld : Overlays filledWorld 0 0 [3, 4] [1, 2] :=
  (overlays_iff reachable_filledWorld
    (show filledWorld.store.OpenFile 0 1 2 ⟨1, 1, true, [1, 0, 0, 0, 0, 0, 0, 0]⟩ by
      decide +kernel)
    (by decide +kernel) (by decide +kernel) (by decide) (by decide) (by decide) (by decide)).mpr
    ⟨Or.inl (by decide), by decide +kernel⟩

/-- The first of two bytes replaced: the second one is lost. -/
theorem not_overlays_filledWorld : Reachable filledWorld ∧
    filledWorld.store.OpenFile 0 1 2 ⟨1, 1, true, [1, 0, 0, 0, 0, 0, 0, 0]⟩ ∧
    filledWorld.store.NoGaps 1 ∧ contents filledWorld 0 = .done (some [1, 2]) ∧
    ¬ Overlays filledWorld 0 0 [3] [1, 2] :=
  ⟨reachable_filledWorld, by decide +kernel, by decide +kernel, by decide +kernel,
    by decide +kernel⟩

/-! ### Running out of room -/

/-- What a write that runs out after `n` bytes should do: return, with exactly these bytes
    written, the position behind them, no block reserved that holds none of them, and
    nothing else changed. -/
structure CleanShortWrite (w : World) (fd i p n : Nat) (data c : List UInt8) : Prop where
  returns : ∃ r, (exec (writeToFile fd data) w).1 = .done r
  content : contents (w.step (.write fd data)) fd = .done (some (overlay c p (data.take n)))
  position : (w.step (.write fd data)).store.Descriptor fd i (p + n)
  blocks : ∀ b, (w.step (.write fd data)).store.BlockReserved b ↔
    w.store.BlockReserved b ∨ b ∈ (w.step (.write fd data)).store.blocksOf i
  inodes : ∀ j, (w.step (.write fd data)).store.InodeReserved j ↔ w.store.InodeReserved j
  others : ∀ j, j ≠ i → w.store.InodeReserved j →
    (w.step (.write fd data)).store.inodes j = w.store.inodes j ∧
      ∀ b ∈ w.store.blocksOf j, (w.step (.write fd data)).store.slots b = w.store.slots b
  table : ∀ fd' i' p', fd' ≠ fd →
    ((w.step (.write fd data)).store.Descriptor fd' i' p' ↔ w.store.Descriptor fd' i' p')

/-- A write looks at no more bytes than the largest file holds. -/
theorem Image.write_take (I : Image) (fd : Nat) (data : List UInt8) :
    I.write fd (data.take 968) = I.write fd data := by
  simp only [Image.write, List.take_take, Nat.min_self]

/-- **No write that runs out is clean.**  After `n` bytes no block is free, or the inode has
    no entry for one: the epilogue in the loop releases the descriptor table, the inode and
    the superblock, and the epilogue behind the loop uses them. -/
theorem not_cleanShortWrite (hw : Reachable w) (hfd : w.store.OpenFile fd i p inode)
    (hc : contents w fd = .done (some c)) (hp : p ≤ c.length) {n : Nat}
    (hn : p + n = 121 * (inode.blocksCount + min w.store.freeBlocks (8 - inode.blocksCount)))
    (hout : n < min data.length 968) : ¬ CleanShortWrite w fd i p n data c := by
  obtain ⟨I, hI, hstore⟩ := hw.image
  rw [hstore] at hfd hc hn ⊢
  generalize w.files = F at hc
  have hd := Image.openFile_iff.mp hfd
  rw [hd.contents_eq hI] at hc
  obtain rfl : content 121 (I.store.chunks i) = c := Option.some.inj (Outcome.done.inj hc)
  have hn' : p + n = 121 * (inode.blocksCount + I.room inode) := hn
  have hpos : p / 121 ≤ inode.blocksCount :=
    Nat.div_le_of_le_mul (hp.trans (hd.length_content_le hI))
  obtain ⟨hwrite, _⟩ := hd.write_eq hI (show (data.take 968).length ≤ 968 by simp) rfl
  rw [writeChunks_rest (by decide) _ _ _ _ _ (Nat.le_refl _) (by rwa [hd.length_chunks hI]),
    hd.length_chunks hI, ← hn', Nat.add_sub_cancel_left, I.write_take, if_neg] at hwrite
  · intro hclean
    obtain ⟨r, hr⟩ := hclean.returns
    rw [hI.exec_write, hwrite] at hr
    cases hr
  · intro hrest
    have hle := List.drop_eq_nil_iff.mp hrest
    rw [List.length_take] at hle
    omega

/-- An image with one regular file, `/f`, that fills all its blocks. -/
def fullWorld : World := openedWorld.step (.write 0 (List.replicate 968 1))

/-- The image with the full file is reached. -/
theorem reachable_fullWorld : Reachable fullWorld := by
  unfold fullWorld
  exact reachable_openedWorld.step id

/-- It has an open file, at its end. -/
theorem openFile_fullWorld :
    fullWorld.store.OpenFile 0 1 968 ⟨1, 8, true, [1, 2, 3, 4, 5, 6, 7, 8]⟩ := by
  decide +kernel

/-- Its content is full. -/
theorem contents_fullWorld : contents fullWorld 0 = .done (some (List.replicate 968 1)) := by
  decide +kernel

/-- One byte more. -/
theorem not_cleanShortWrite_fullWorld :
    ¬ CleanShortWrite fullWorld 0 1 968 0 [2] (List.replicate 968 1) :=
  not_cleanShortWrite reachable_fullWorld openFile_fullWorld contents_fullWorld
    (by rw [List.length_replicate]) (by decide +kernel) (by decide)

/-- A write of one byte to a full file without gaps uses a released table, and never
    returns. -/
theorem fullWorld_halts : Reachable fullWorld ∧
    fullWorld.store.OpenFile 0 1 968 ⟨1, 8, true, [1, 2, 3, 4, 5, 6, 7, 8]⟩ ∧
    fullWorld.store.NoGaps 1 ∧ contents fullWorld 0 = .done (some (List.replicate 968 1)) ∧
    ¬ CleanShortWrite fullWorld 0 1 968 0 [2] (List.replicate 968 1) := by
  refine ⟨reachable_fullWorld, openFile_fullWorld, by decide +kernel, contents_fullWorld, ?_⟩
  rintro ⟨⟨r, hr⟩, _⟩
  have hend : (exec (writeToFile 0 [2]) fullWorld).1 = .halted .memoryError := by decide +kernel
  rw [hend] at hr
  cases hr

end Overwrite

end MiniExt
