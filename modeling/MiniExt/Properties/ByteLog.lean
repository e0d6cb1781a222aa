import MiniExt.Properties.Kinds
import MiniExt.Properties.OwnImage

namespace MiniExt

open Lib

/-!
# A file written in sequence

A new file that is only written to, through one descriptor, holds what was written, in the
order of the writes: neither the sizes of the pieces nor the other commands matter.  The
invariant reads the file as one list of bytes, with the descriptor at its end.

* `Store.FreshlyOpened` — the file at the start, and `touch_open`, that commands lead there;
* `LogRun` — writes to one descriptor, with other commands in between;
* `Image.LogOf` — the invariant of these runs;
* `reads_of_log` — the file read back in pieces of any sizes.
-/

/-- Inode `n` is an empty regular file, open as descriptor `f` at its start. -/
structure Store.FreshlyOpened (st : Store) (f n : Nat) : Prop where
  descriptor : st.Descriptor f n 0
  isFile : st.HasKind true n
  empty : st.chunks n = [[]]

instance (st : Store) (f n : Nat) : Decidable (st.FreshlyOpened f n) :=
  decidable_of_iff (st.Descriptor f n 0 ∧ st.HasKind true n ∧ st.chunks n = [[]])
    ⟨fun h => ⟨h.1, h.2.1, h.2.2⟩, fun h => ⟨h.descriptor, h.isFile, h.empty⟩⟩

/-- A run that writes the pieces of a list to descriptor `f`, one after the other, none of
    them running out of free blocks, with commands that are foreign to `f` in between, none of
    which writes a host file onto the image.  The host may change its files at any time. -/
inductive LogRun (f : Nat) : World → List (List UInt8) → World → Prop where
  | done (w : World) : LogRun f w [] w
  | write {w w' : World} {i pos : Nat} {inode : Inode} {ds : List (List UInt8)} (d : List UInt8)
    (hopen : w.store.OpenFile f i pos inode)
    (hroom : inode.blocksNeeded pos d.length ≤ w.store.freeBlocks)
    (htail : LogRun f (w.step (.write f d)) ds w') : LogRun f w (d :: ds) w'
  | other {w w' : World} {ds : List (List UInt8)} (c : Command) (hc : c.Foreign f)
    (honto : ¬ c.OntoImage w.files) (htail : LogRun f (w.step c) ds w') : LogRun f w ds w'
  | host {w w' : World} {ds : List (List UInt8)} (files : HostFiles)
    (htail : LogRun f { w with files := files } ds w') : LogRun f w ds w'

/-- The results of reads from descriptor `f`, one after the other. -/
def readAll (f : Nat) : List Nat → World → List (Outcome Stop (Option (List UInt8)))
  | [], _ => []
  | s :: ss, w =>
    let r := exec (readFile f s s) w
    r.1 :: readAll f ss r.2

/-- Consecutive pieces of the sizes asked for, as far as the bytes go. -/
def pieces : List Nat → List UInt8 → List (List UInt8)
  | [], _ => []
  | s :: ss, bytes => bytes.take (min s 968) :: pieces ss (bytes.drop (min s 968))

namespace Image

/-- Descriptor `f` is for a regular file without gaps that holds `bytes`, at its end. -/
structure LogOf (I : Image) (f n : Nat) (bytes : List UInt8) : Prop where
  atEnd : ∃ inode, I.FileDescriptor f n bytes.length inode
  gapFree : GapFree 121 (I.store.chunks n)
  holds : content 121 (I.store.chunks n) = bytes

variable {I J : Image} {f n : Nat} {bytes d : List UInt8}

/-- A file that was just opened holds nothing. -/
theorem logOf_freshlyOpened (hfresh : I.store.FreshlyOpened f n) : I.LogOf f n [] := by
  obtain ⟨inode, hget, hkind⟩ := hfresh.isFile
  refine ⟨⟨inode, openFile_iff.mp ⟨hfresh.descriptor, hget, hkind⟩⟩, ?_, ?_⟩
  · rw [hfresh.empty]
    decide
  · rw [hfresh.empty]
    rfl

/-- The file a creation adds is empty. -/
theorem Ok.created_empty (h : I.Ok) (path : List UInt8) (hfree : ¬ Taken I.sb.reservedInodesMask n)
    (htaken : Taken (I.create true path).image.sb.reservedInodesMask n) :
    (I.create true path).image.store.HasKind true n ∧
      (I.create true path).image.store.chunks n = [[]] := by
  have hrun := h.createRun true path
  generalize I.create true path = e at hrun htaken
  -- the image with the new inode
  have halloc : ∀ {p m b b₀ : Nat} {name : List UInt8} {s : Slot},
      I.CreateAt path p name m b b₀ s → Taken (I.alloc true p m b).sb.reservedInodesMask n →
        m = n ∧ (I.alloc true p m b).store.HasKind true n ∧
          (I.alloc true p m b).store.chunks n = [[]] := by
    intro p m b b₀ name s hat hn
    obtain rfl : m = n := by
      rcases (taken_set (firstFree_eq_some_iff.mp hat.inodeFree).1).mp hn with heq | hn
      · exact heq.symm
      · exact absurd hn hfree
    have hget : (I.alloc true p m b).inodes m = some (freshInode true m b) :=
      setInode_inodes_self _ (freshInode true m b)
    refine ⟨rfl, ⟨_, hget, rfl⟩, ?_⟩
    have hslot : (I.alloc true p m b).slots b = some (I.freshSlot true p m b) :=
      setSlot_slots_self I b _
    have hvisible : (I.freshSlot true p m b).visible = [] := by
      simp only [freshSlot, if_true, Slot.visible]
      split
      · exact List.take_zero
      · rfl
    rw [chunks_eq hget, show (freshInode true m b).blocks = [b] from rfl, List.map_singleton, hslot,
      ← hvisible]
  cases hrun with
  | unchanged o => exact absurd htaken hfree
  | leaked o hat hfull => exact (halloc hat htaken).2
  | @linked p m b b₀ name s hat hroom hshort =>
    have hJ : Taken (I.alloc true p m b).sb.reservedInodesMask n := by
      rw [hat.link_eq h] at htaken
      exact htaken
    obtain ⟨_, ⟨inode, hget, hkind⟩, hempty⟩ := halloc hat hJ
    have hsame := hat.sameInode_link h true ⟨m, nameField defaultFsInfo name⟩ hJ
      fun heq => hfree (heq ▸ hat.dir.1)
    exact ⟨⟨inode, hsame.inode.trans hget, hkind⟩, hsame.chunks.trans hempty⟩

/-! ### Writes -/

/-- **A write to the descriptor** appends to the file. -/
theorem LogOf.written (hlog : I.LogOf f n bytes) (h : I.Ok) {i pos : Nat} {inode : Inode}
    (hopen : I.store.OpenFile f i pos inode)
    (hroom : inode.blocksNeeded pos d.length ≤ I.store.freeBlocks)
    (htotal : (bytes ++ d).length ≤ 968) : (I.written f d).LogOf f n (bytes ++ d) := by
  obtain ⟨⟨inode', hd⟩, hgap, hholds⟩ := hlog
  have hd' := openFile_iff.mp hopen
  obtain rfl := Option.some.inj (hd.refers.symm.trans hd'.refers)
  obtain rfl := Option.some.inj (hd.position.symm.trans hd'.position)
  obtain rfl := Option.some.inj (hd.record.symm.trans hd'.record)
  rw [List.length_append] at htotal
  have hlen := hd.length_chunks h
  have hcount := (hd.ok h).count_le
  have hpos : bytes.length ≤ (content 121 (I.store.chunks n)).length := by rw [hholds]
  have hblock := div_le_length hgap.bounded hpos
  -- the blocks appended suffice
  have hfits : bytes.length + d.length ≤ 121 * ((I.store.chunks n).length + I.room inode') := by
    have hmin : I.room inode' = min I.store.freeBlocks (8 - inode'.blocksCount) := rfl
    have hdm := div_mod_eq 121 bytes.length
    rw [hlen] at hblock ⊢
    rw [hmin]
    unfold Inode.blocksNeeded at hroom
    split at hroom
    · have := length_content_le hgap.bounded
      rw [hholds, hlen] at this
      omega
    · omega
  obtain ⟨_, hchunks, inode'', hd''⟩ := hd.write_eq h (show d.length ≤ 968 by omega) rfl
  have hrest : (writeChunks 0 121 d.length (I.store.chunks n) (I.room inode') bytes.length d).2 =
      [] := by
    rw [writeChunks_rest (by decide) _ _ _ _ _ (Nat.le_refl _) hblock, List.drop_eq_nil_iff]
    omega
  rw [hrest, List.length_nil, Nat.sub_zero, ← List.length_append] at hd''
  refine ⟨⟨inode'', hd''⟩, ?_, ?_⟩
  · rw [hchunks]
    exact hgap.writeChunks (by decide) _ _ _ _ _ hpos (by rw [hholds]; omega)
  · rw [hchunks]
    by_cases hnil : d = []
    · rw [hnil, writeChunks_nil, List.append_nil]
      exact hholds
    · rw [content_writeChunks (by decide) _ _ _ _ _ hnil (Nat.le_refl _) hgap hpos hfits, hholds,
        List.take_length, List.drop_of_length_le (by omega), ite_self, List.append_nil]

/-! ### Other commands -/

/-- A file is not the directory a path leads to. -/
theorem FileDescriptor.not_site {pos : Nat} {inode : Inode} {path : List UInt8}
    (hd : I.FileDescriptor f n pos inode) :
    ¬ ∃ s name, I.store.site path = .done (some (n, s, name)) := by
  rintro ⟨s, name, hsite⟩
  obtain ⟨_, inode', _, _, hget, hkind, _⟩ := Store.site_eq_iff.mp hsite
  obtain rfl := Option.some.inj (hd.record.symm.trans hget)
  rw [hd.isFile] at hkind
  cases hkind

/-- An image with the same file and the same entry. -/
theorem LogOf.frame (hlog : I.LogOf f n bytes) (hsame : SameInode n I J)
    (hent : ∀ {p}, I.dt.Entry f n p → J.dt.Entry f n p) : J.LogOf f n bytes := by
  obtain ⟨⟨inode, hd⟩, hgap, hholds⟩ := hlog
  obtain ⟨hreserved, hrefers, hposition⟩ := hent ⟨hd.reserved, hd.refers, hd.position⟩
  refine ⟨⟨inode, hreserved, hrefers, hposition, hsame.inode.trans hd.record, hd.isFile⟩, ?_, ?_⟩
  · rwa [hsame.chunks]
  · rwa [hsame.chunks]

/-- **Every foreign command** leaves the file and its descriptor alone. -/
theorem LogOf.after (hlog : I.LogOf f n bytes) (h : I.Ok) (F : HostFiles) {c : Command}
    (hc : c.Foreign f) : (I.after F c).LogOf f n bytes := by
  obtain ⟨inode, hd⟩ := hlog.atEnd
  have hne : c ≠ .init := by
    rintro rfl
    exact hc
  apply hlog.frame (h.sameInode_after F hne (hd.taken h) ?_) (h.entry_after F hc)
  intro hacts
  cases c with
  | write fd data =>
    -- another descriptor is for another inode
    obtain ⟨p, hent⟩ := hacts
    exact hc (h.table.distinct (descriptor_iff.mp hent) ⟨hd.reserved, hd.refers, hd.position⟩)
  | writeFrom fd path =>
    obtain ⟨p, hent⟩ := hacts
    exact hc (h.table.distinct (descriptor_iff.mp hent) ⟨hd.reserved, hd.refers, hd.position⟩)
  | mkdir path => exact hd.not_site hacts
  | touch path => exact hd.not_site hacts
  | _ => exact hacts

/-! ### Reads -/

/-- **A read inside a file without gaps** returns the bytes from its position on, as many as
    were asked for and are there, and moves on by them. -/
theorem FileDescriptor.read_log {pos : Nat} {inode : Inode} (hd : I.FileDescriptor f n pos inode)
    (h : I.Ok) (hgap : GapFree 121 (I.store.chunks n))
    (hlen : (content 121 (I.store.chunks n)).length < 968)
    (hpos : pos ≤ (content 121 (I.store.chunks n)).length) (size : Nat) :
    I.read f size size =
      (.done (some (((content 121 (I.store.chunks n)).drop pos).take (min size 968))),
        I.setPosition f (pos + (((content 121 (I.store.chunks n)).drop pos).take
          (min size 968)).length)) := by
  refine hd.read_eq h (Nat.min_le_left _ _) (fun v => hgap.mod_le_length (by decide) hpos)
    (fun hedge => ?_) (hgap.readChunks_eq (by decide) _ _ _ (Nat.le_refl _)) (Or.inl ?_)
  · have hle := hd.length_content_le h
    rw [← hedge] at hle
    have hdm := div_mod_eq 121 pos
    omega
  · rw [List.length_take, List.length_drop]
    omega

/-- **Reads in sequence** return consecutive pieces. -/
theorem readAll_eq (ss : List Nat) {pos : Nat} {inode : Inode} (F : HostFiles)
    (hd : I.FileDescriptor f n pos inode) (h : I.Ok) (hgap : GapFree 121 (I.store.chunks n))
    (hlen : (content 121 (I.store.chunks n)).length < 968)
    (hpos : pos ≤ (content 121 (I.store.chunks n)).length) :
    readAll f ss ⟨I.store, F⟩ =
      (pieces ss ((content 121 (I.store.chunks n)).drop pos)).map fun p => .done (some p) := by
  induction ss generalizing I pos with
  | nil => rfl
  | cons s ss ih =>
    have hread := hd.read_log h hgap hlen hpos s
    generalize hgot : ((content 121 (I.store.chunks n)).drop pos).take (min s 968) = got at hread
    have hle : got.length ≤ (content 121 (I.store.chunks n)).length - pos := by
      rw [← hgot, List.length_take, List.length_drop]
      exact Nat.min_le_right _ _
    have hpos' : pos + got.length ≤ (content 121 (I.store.chunks n)).length := by omega
    have hrest : (content 121 (I.store.chunks n)).drop (pos + got.length) =
        ((content 121 (I.store.chunks n)).drop pos).drop (min s 968) := by
      rw [← hgot, List.length_take, ← List.drop_drop, List.drop_eq_drop_iff]
      omega
    have hnext := ih (hd.setPosition (pos + got.length)) (hd.setPosition_ok h (by omega)) hgap hlen
      hpos'
    simp only [readAll, h.exec_read, hread, pieces, List.map_cons, hgot, hnext, ← hrest]
    rfl

end Image

/-! ### The log -/

section Log

variable {w w' : World} {f n : Nat} {ds : List (List UInt8)}

/-- **A new file**, opened for the first time. -/
theorem touch_open (hw : Reachable w) (path path' : CString) (hnew : ¬ w.store.InodeReserved n)
    {p : Nat} (hopen : ((w.step (.touch path)).step (.open path')).store.Descriptor f n p) :
    ((w.step (.touch path)).step (.open path')).store.FreshlyOpened f n := by
  obtain ⟨I, hI, hstore⟩ := hw.image
  rw [hstore] at hnew hopen ⊢
  have hJ := hI.after_ok w.files (.touch path)
  rw [hI.step_after, hJ.step_after] at hopen ⊢
  generalize hcreate : I.after w.files (.touch path) = J at hJ hopen ⊢
  have hfree : ¬ Taken I.sb.reservedInodesMask n := hnew
  -- no descriptor refers to an inode that is not reserved
  have hold : ∀ {fd q}, ¬ J.dt.Entry fd n q := by
    intro fd q hent
    rw [← hcreate] at hent
    have hent' : I.dt.Entry fd n q := hI.create_dt true path.bytes ▸ hent
    exact hfree (hI.descriptor hent'.reserved hent'.refers).1
  rcases hJ.openPath_cases path'.bytes with ⟨heq, _⟩ | ⟨i, fd, dt, heq, _, hl, hdt⟩
  · rw [Image.after, heq] at hopen
    exact absurd (Image.descriptor_iff.mp hopen) hold
  · rw [Image.after, heq] at hopen ⊢
    rcases entry_reserveDescriptor hdt (Image.descriptor_iff.mp hopen) with
      ⟨rfl, rfl, rfl⟩ | ⟨_, hent⟩
    · have htaken : Taken J.sb.reservedInodesMask n :=
        hl.elim (fun heq => heq ▸ hJ.root_reserved) hJ.directories.tree.live_of_named
      rw [← hcreate] at htaken
      obtain ⟨hkind, hempty⟩ := hI.created_empty path.bytes hfree htaken
      exact ⟨hopen, hcreate ▸ hkind, hcreate ▸ hempty⟩
    · exact absurd hent hold

/-- **Every such run** appends the pieces to the file. -/
theorem LogRun.logOf (hrun : LogRun f w ds w') {I : Image} (h : I.Ok) (hw : w = ⟨I.store, w.files⟩)
    {bytes : List UInt8} (hlog : I.LogOf f n bytes) (htotal : (bytes ++ ds.flatten).length < 968) :
    ∃ J : Image, J.Ok ∧ w' = ⟨J.store, w'.files⟩ ∧ J.LogOf f n (bytes ++ ds.flatten) := by
  induction hrun generalizing I bytes with
  | done w =>
    rw [List.flatten_nil, List.append_nil]
    exact ⟨I, h, hw, hlog⟩
  | @write w w' i pos inode ds d hopen hroom htail ih =>
    rw [hw] at hopen hroom
    rw [List.flatten_cons, ← List.append_assoc] at htotal ⊢
    have hd : (bytes ++ d).length < 968 := by
      rw [List.length_append] at htotal
      omega
    refine ih (h.written_ok f d) ?_ (hlog.written h hopen hroom hd.le) htotal
    rw [hw, h.step_after]
    rfl
  | @other w w' ds c hc _ htail ih =>
    refine ih (h.after_ok w.files c) ?_ (hlog.after h w.files hc) htotal
    rw [hw, h.step_after]
  | host files htail ih => exact ih h (by rw [hw]) hlog htotal

/-- **The file is a log.**  A file that was empty when it was opened, written to through its
    descriptor only, and less than a full file of it, is read back from the start in pieces
    of any sizes: each read returns the next bytes written, as many as it asks for and are
    left.  The other commands may be any, but for a `read_to` onto the image. -/
theorem reads_of_log (hw : Reachable w) (hfresh : w.store.FreshlyOpened f n)
    (hrun : LogRun f w ds w') (htotal : ds.flatten.length < 968) (ss : List Nat) :
    readAll f ss (w'.step (.lseek f 0)) =
      (pieces ss ds.flatten).map fun p => .done (some p) := by
  obtain ⟨I, hI, hstore⟩ := hw.image
  rw [hstore] at hfresh
  obtain ⟨J, hJ, hstore', hlog⟩ := hrun.logOf hI hstore (Image.logOf_freshlyOpened hfresh)
    (by rwa [List.nil_append])
  obtain ⟨⟨inode, hd⟩, hgap, hholds⟩ := hlog
  rw [List.nil_append] at hholds
  rw [hstore', hd.step_seek hJ (by decide)]
  have hreads := Image.readAll_eq ss w'.files (hd.setPosition 0) (hd.setPosition_ok hJ (by decide))
    hgap (hholds ▸ htotal) (Nat.zero_le _)
  rw [hreads]
  exact congrArg (fun bytes => (pieces ss bytes).map _) hholds

/-- A small file, written in three pieces around other commands, from a descriptor that stays
    open. -/
theorem reads_of_log_opened : readAll 0 [2, 1000, 5]
    (((((openedWorld.step (.write 0 [1])).step (.mkdir ⟨[47, 100], by decide⟩)).step
      (.write 0 [2, 3])).step (.lseek 1 7)).step (.lseek 0 0)) =
    [.done (some [1, 2]), .done (some [3]), .done (some [])] :=
  reads_of_log reachable_openedWorld (show openedWorld.store.FreshlyOpened 0 1 by decide +kernel)
    (.write [1]
      (show openedWorld.store.OpenFile 0 1 0 ⟨1, 1, true, [1, 0, 0, 0, 0, 0, 0, 0]⟩ by
        decide +kernel)
      (by decide +kernel)
      (.other (.mkdir ⟨[47, 100], by decide⟩) trivial id
        (.write [2, 3]
          (show Store.OpenFile _ 0 1 1 ⟨1, 1, true, [1, 0, 0, 0, 0, 0, 0, 0]⟩ by decide +kernel)
          (by decide +kernel) (.other (.lseek 1 7) (show 1 ≠ 0 by decide) id (.done _)))))
    (by decide) [2, 1000, 5]

/-- The image once a byte was written to `/f` and `/g` was read onto it. -/
def lostWorld : World where
  store := { ((headWorld.step (.write 0 [1])).step (.readTo 1 imagePath none)).store with
    superblock := some formatted.sb
    descriptorsTable := some formatted.dt }
  files := headFiles

/-- The file that is open as 0 is written to, and another one is read onto the image. -/
theorem runCommands_lostWorld {f : ImageFile} (hf : Represents f.bytes headWorld.store) :
    ∃ f', runCommands fileHandler ImageFile.access [.write 0 [1], .readTo 1 imagePath none]
        (f, headFiles) = some ([.done (), .done ()], f', headFiles) ∧
      Represents f'.bytes lostWorld.store := by
  have hwritten : Reachable (headWorld.step (.write 0 [1])) := reachable_headWorld.step id
  have hfiles : (headWorld.step (.write 0 [1])).files = headFiles :=
    (reachable_headWorld.files_step id).trans files_headWorld
  have hends : (exec (Command.write 0 [1]).prog headWorld).1 = .done () := by decide +kernel
  have hread : (exec (readFile 1 (Image.clampSize none) (Image.clampSize none))
      (headWorld.step (.write 0 [1]))).1 =
      .done (some (encodeSuperblock formatted.sb ++ encodeTable formatted.dt)) := by
    decide +kernel
  obtain ⟨m, hm, himage, hm'⟩ := run?_command (c := .write 0 [1]) id hf
    (reachable_headWorld.answered id)
  rw [hends, files_headWorld] at hm
  have hpath : (headWorld.step (.write 0 [1])).files.isImage imagePath.bytes = true := by
    rw [hfiles]
    decide
  obtain ⟨f', hrun, hf'⟩ := runCommands_rewrite hwritten himage hpath formatted_sb_fitsIn
    formatted_dt_fitsIn hread
  refine ⟨f', ?_, hf'⟩
  rw [hfiles] at hrun hm'
  rw [runCommands, hm, Option.bind_some, hm', hrun]
  rfl

/-- A `read_to` of another file onto the image loses the log: afterwards no descriptor is open, and
    a read of the byte that was written fails. -/
theorem not_readsOfLog_rewritten : Reachable headWorld ∧ headWorld.store.FreshlyOpened 0 1 ∧
    ∃ f : ImageFile, Represents f.bytes headWorld.store ∧
      ∃ s, runCommands fileHandler ImageFile.access
          [.write 0 [1], .readTo 1 imagePath none, .lseek 0 0] (f, headWorld.files) =
        some ([.done (), .done (), .done ()], s) ∧
      ∃ m, (readFile 0 1 1).run? (byteHandler fileHandler ImageFile.access) ⟨s.1, s.2, []⟩ =
        some (.done none, m) := by
  obtain ⟨f, -, hf⟩ := runCommands_headWorld
  obtain ⟨f₁, hrun, hf₁⟩ := runCommands_lostWorld hf
  have hends : (exec (Command.lseek 0 0).prog lostWorld).1 = .done () := by decide +kernel
  obtain ⟨m₂, hm₂, hf₂, hfiles₂⟩ := run?_command (w := lostWorld) (c := .lseek 0 0) id hf₁
    (by rw [hends]; rintro ⟨⟩)
  rw [hends] at hm₂
  -- the descriptor is not open any more
  have hread : (exec (readFile 0 1 1) (lostWorld.step (.lseek 0 0))).1 = .done none := by
    decide +kernel
  rcases hexec : (readFile 0 1 1).run hostHandler (lostWorld.step (.lseek 0 0)).start with ⟨o, m'⟩
  rw [exec, hexec] at hread
  obtain rfl : o = .done none := hread
  have hstart : SameMachine (lostWorld.step (.lseek 0 0)).files (lostWorld.step (.lseek 0 0)).start
      ⟨m₂.device, m₂.files, []⟩ := ⟨hf₂, hfiles₂, rfl, rfl⟩
  obtain ⟨m₃, hm₃, -⟩ := refines_hostHandler.run (careful_readFile 0 1 1) hstart hexec trivial
  rw [files_headWorld]
  refine ⟨reachable_headWorld, by decide +kernel, f, hf, (m₂.device, m₂.files), ?_, m₃, hm₃⟩
  rw [show [Command.write 0 [1], .readTo 1 imagePath none, .lseek 0 0] =
    [.write 0 [1], .readTo 1 imagePath none] ++ [.lseek 0 0] from rfl, runCommands_append, hrun,
    Option.bind_some, runCommands, show headFiles = lostWorld.files from rfl, hm₂]
  rfl

end Log

end MiniExt
