import MiniExt.Properties.ByteLog
import MiniExt.Properties.ByteRuns

namespace MiniExt

open Lib

/-!
# Through the file system and back

A host file is written into a new file and read back into another host file.  What passes
through the file system is the whole of the first one.  But the second one is opened without
being truncated, so what it held past that stays; the image itself, which is longer than any
file in it, keeps its end as well.

* `HostRoundTrip` — the property;
* `World.FaithfulFiles` — what the host files say of the image is the image;
* `roundTrip_files` — what the host files are afterwards;
* `hostRoundTrip_iff` — exactly when that is the content of the source.
-/

/-- After `write_from`, `lseek` to the start and `read_to` without a size, the destination
    holds what the source held. -/
def HostRoundTrip (w : World) (f : Nat) (source destination : CString) : Prop :=
  (((w.step (.writeFrom f source)).step (.lseek f 0)).step
    (.readTo f destination none)).files destination.bytes = w.files source.bytes

/-- A host file of at most the size a write takes passes through its buffer. -/
theorem hostData_of_le {F : HostFiles} {path s : List UInt8} (hs : F path = some s)
    (hlen : s.length ≤ 968) : Image.hostData F path = some s := by
  have hmod : s.length % 2 ^ 32 = s.length := Nat.mod_eq_of_lt (by omega)
  unfold Image.hostData
  simp only [hs, hmod]
  rw [if_neg (by omega), List.take_length]

namespace Image

variable {I : Image} {f n : Nat} {bytes : List UInt8}

/-- **A read of everything**, from the start of a file without gaps. -/
theorem FileDescriptor.read_all {inode : Inode} (hd : I.FileDescriptor f n 0 inode) (h : I.Ok)
    (hgap : GapFree 121 (I.store.chunks n)) (hlen : (content 121 (I.store.chunks n)).length ≤ 968) :
    (I.read f 968 968).1 = .done (some (content 121 (I.store.chunks n))) := by
  rw [hd.read_eq h (Nat.min_le_left _ _) (fun _ _ => Nat.zero_le _) (fun _ => rfl)
    (hgap.readChunks_eq (by decide) _ _ _ (Nat.le_refl _)) (Or.inr (Nat.le_refl _))]
  rw [List.drop_zero, Nat.min_self, List.take_of_length_le hlen]

end Image

/-! ### The image among the host files -/

/-- What the host files say of a path that leads to the image is a file of its records. -/
def World.FaithfulFiles (w : World) : Prop :=
  ∀ path, w.files.isImage path = true → ∃ bytes, w.files path = some bytes ∧
    Represents bytes w.store

/-- An image is longer than the largest file it can hold. -/
theorem Image.Ok.lt_length {I : Image} (h : I.Ok) {bytes : List UInt8}
    (hbytes : Represents bytes I.store) : 968 < bytes.length := by
  obtain ⟨s, hblock, -⟩ := h.layout.rootBlock
  obtain ⟨-, -, -, hslot⟩ := Image.block_cases hblock
  have hheld : I.store.encoded (.block 0) = some s.encode := by
    rw [Store.encoded, Image.store_slots, hslot]
    rfl
  have hlen := (hbytes.holds (.block 0) hheld).length_le
  have hstart : 968 ≤ Item.start defaultFsInfo (.block 0) := by decide
  have hheader : 0 < s.encode.length := by
    rw [Slot.encode, List.length_append, length_encodeBlockInfo]
    exact Nat.add_pos_left (by decide) _
  rw [List.length_drop] at hlen
  omega

section RoundTrip

variable {w : World} {f n : Nat} {source destination : CString} {s : List UInt8}

/-- **The destination** holds the source, and behind it what it held there before. -/
theorem roundTrip_files (hw : Reachable w) (hfresh : w.store.FreshlyOpened f n)
    (hs : w.files source.bytes = some s) (hlen : s.length ≤ 968)
    (hroom : s.length ≤ 121 * (w.store.freeBlocks + 1)) :
    (((w.step (.writeFrom f source)).step (.lseek f 0)).step
      (.readTo f destination none)).files =
      Image.filesRead w.files destination.bytes (.done (some s)) := by
  obtain ⟨I, hI, hstore⟩ := hw.image
  generalize w.files = F at hs hstore
  subst hstore
  -- the write stores the whole source
  have hlog := Image.logOf_freshlyOpened hfresh
  obtain ⟨⟨inode, hd⟩, _, _⟩ := hlog
  have hcount : inode.blocksCount = 1 := by
    have hchunks := hd.length_chunks hI
    rw [hfresh.empty] at hchunks
    exact hchunks.symm
  have hneeded : inode.blocksNeeded 0 s.length ≤ I.store.freeBlocks := by
    unfold Inode.blocksNeeded
    rw [hcount]
    have hfree : (⟨I.store, F⟩ : World).store.freeBlocks = I.store.freeBlocks := rfl
    rw [hfree] at hroom
    split
    · exact Nat.zero_le _
    · omega
  have hlog' := (Image.logOf_freshlyOpened hfresh).written hI (Image.openFile_iff.mpr hd) hneeded
    (by rwa [List.nil_append])
  rw [List.nil_append] at hlog'
  have hJ := hI.written_ok f s
  have hwrite : (⟨I.store, F⟩ : World).step (.writeFrom f source) = ⟨(I.written f s).store, F⟩ := by
    rw [hI.step_after, Image.after, hostData_of_le hs hlen]
    rfl
  generalize I.written f s = J at hlog' hJ hwrite
  obtain ⟨⟨inode', hd'⟩, hgap, hholds⟩ := hlog'
  -- the read finds it
  rw [hwrite, hd'.step_seek hJ (by decide), (hd'.setPosition_ok hJ (by decide)).step_after]
  have hread := (hd'.setPosition 0).read_all (hd'.setPosition_ok hJ (by decide)) hgap
    (show (content 121 (J.store.chunks n)).length ≤ 968 by rwa [hholds])
  have hcontent : content 121 ((J.setPosition f 0).store.chunks n) = s := hholds
  rw [hcontent] at hread
  simp only [Image.filesAfter, Image.clampSize, hread]

/-- **Host file round trips.**  For every reachable image, every file that was just created
    and opened, with enough free blocks, and every source of at most the size of a file: the
    destination ends up with the content of the source exactly when it did not exist or was
    not longer. -/
theorem hostRoundTrip_iff (hw : Reachable w) (hown : w.FaithfulFiles)
    (hfresh : w.store.FreshlyOpened f n) (hs : w.files source.bytes = some s)
    (hlen : s.length ≤ getMaxDataSizeOfAllBlocks defaultFsInfo)
    (hroom : s.length ≤ 121 * (w.store.freeBlocks + 1)) :
    HostRoundTrip w f source destination ↔
      ∀ old, w.files destination.bytes = some old → old.length ≤ s.length := by
  rw [getMaxDataSizeOfAllBlocks_default] at hlen
  unfold HostRoundTrip
  rw [roundTrip_files hw hfresh hs hlen hroom, hs, Image.filesRead]
  by_cases hdest : w.files.isImage destination.bytes = true
  · -- onto the image: it is longer than what was read
    obtain ⟨I, hI, heq⟩ := hw.image
    obtain ⟨bytes, hbytes, himage⟩ := hown destination.bytes hdest
    rw [heq] at himage
    have hlong := hI.lt_length himage
    rw [if_pos hdest, hbytes]
    refine iff_of_false (fun h => ?_) fun h => ?_
    · rw [Option.some.inj h] at hlong
      omega
    · exact absurd (h bytes rfl) (by omega)
  · rw [if_neg hdest]
    have hheld : overwrite w.files destination.bytes s destination.bytes =
        some (s ++ ((w.files destination.bytes).getD []).drop s.length) := by
      simp [overwrite_held, memcpy]
    rw [hheld, Option.some.injEq, List.append_right_eq_self, List.drop_eq_nil_iff]
    rcases w.files destination.bytes with _ | old
    · simp
    · simp

end RoundTrip

/-- The host path `s`. -/
def sourcePath : CString := ⟨[115], by decide⟩

/-- The host path `d`. -/
def destinationPath : CString := ⟨[100], by decide⟩

/-- A source of three bytes, a destination, and everywhere else the image. -/
def copyFiles (image old : List UInt8) : HostFiles where
  file path := if path = sourcePath.bytes then 1 else if path = destinationPath.bytes then 2 else 0
  image := 0
  content n := if n = 1 then some [1, 2, 3] else if n = 2 then some old else some image

/-- An image with an open empty file, among these host files. -/
def copyWorld (image old : List UInt8) : World :=
  { openedWorld with files := copyFiles image old }

/-- The image with the two host files is reached. -/
theorem reachable_copyWorld (image old : List UInt8) : Reachable (copyWorld image old) :=
  reachable_openedWorld.host _

/-- The image may be any file of the records. -/
theorem faithful_copyWorld {image : List UInt8} (h : Represents image openedWorld.store)
    (old : List UInt8) : (copyWorld image old).FaithfulFiles := by
  intro path hpath
  have hfile : (copyFiles image old).file path = 0 := eq_of_beq hpath
  have hheld : (copyFiles image old) path = some image := by
    rw [HostFiles.held, hfile]
    rfl
  exact ⟨image, hheld, h⟩

/-- There is one. -/
theorem represents_openedWorld : ∃ image, Represents image openedWorld.store := by
  have halike : RunsAlike [.init, .touch pathF, .open pathF] ⟨.blank, .onlyImage⟩ ⟨[], 0⟩ :=
    runsAlike_init _ (by decide)
  obtain ⟨bw, hbw⟩ := halike.holds
  exact ⟨bw.image, hbw.image⟩

/-- A destination of the same length. -/
theorem hostRoundTrip_copyWorld : ∃ image, (copyWorld image [7, 7, 7]).FaithfulFiles ∧
    HostRoundTrip (copyWorld image [7, 7, 7]) 0 sourcePath destinationPath := by
  obtain ⟨image, himage⟩ := represents_openedWorld
  refine ⟨image, faithful_copyWorld himage _, ?_⟩
  have hfresh : openedWorld.store.FreshlyOpened 0 1 := by decide +kernel
  have hroom : 3 ≤ 121 * (openedWorld.store.freeBlocks + 1) := by decide +kernel
  refine (hostRoundTrip_iff (reachable_copyWorld image _) (faithful_copyWorld himage _) hfresh
    (s := [1, 2, 3]) rfl (by decide) hroom).mpr fun old hold => ?_
  cases hold
  decide

/-- A longer destination keeps its end. -/
theorem not_hostRoundTrip_copyWorld : ∃ image,
    Reachable (copyWorld image [7, 7, 7, 7]) ∧ (copyWorld image [7, 7, 7, 7]).FaithfulFiles ∧
    (copyWorld image [7, 7, 7, 7]).store.FreshlyOpened 0 1 ∧
    (copyWorld image [7, 7, 7, 7]).files sourcePath.bytes = some [1, 2, 3] ∧
    ¬ HostRoundTrip (copyWorld image [7, 7, 7, 7]) 0 sourcePath destinationPath := by
  obtain ⟨image, himage⟩ := represents_openedWorld
  have hfresh : openedWorld.store.FreshlyOpened 0 1 := by decide +kernel
  have hroom : 3 ≤ 121 * (openedWorld.store.freeBlocks + 1) := by decide +kernel
  refine ⟨image, reachable_copyWorld _ _, faithful_copyWorld himage _, hfresh, rfl, fun h => ?_⟩
  rw [HostRoundTrip, roundTrip_files (reachable_copyWorld _ _) hfresh (s := [1, 2, 3]) rfl
    (by decide) hroom] at h
  -- three bytes are written over a file of four
  have hend : some ([1, 2, 3, 7] : List UInt8) = some [1, 2, 3] := h
  exact absurd hend (by decide)

end MiniExt
