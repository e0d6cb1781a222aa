import MiniExt.Runs.Commands
import MiniExt.Runs.Halts

namespace MiniExt

open Lib

/-!
# Every call has an answer

A record that was never written cannot be read, and nothing is stored outside of the geometry:
the host of records has no answer for either.  From an image that keeps the invariant no command
makes such a call: what it reads was stored, by `init` or by a command before it.

* `resolve_ne_outside`, `readTurns_ne_outside` — the walk and the loop of `read_file`;
* `run_ls` — the run of `ls`, directory by directory;
* `Image.Ok.answered`, `Reachable.answered` — every command, with any arguments;
* `no_call_unanswered` — in every world that runs reach.
-/

variable {I : Image} {F : HostFiles} {T : List Store}

namespace Image

/-! ### Paths -/

/-- The walk of a path has answers. -/
theorem Ok.resolve_ne_outside (h : I.Ok) (path : List UInt8) :
    I.store.resolve path ≠ .halted .outside :=
  (h.walk_linked (path.length + 1) path rootInodeId (Nat.lt_succ_self _) h.root_reserved
    (Or.inl rfl)).1

/-- A path that resolves leads to an inode with a record and a first block. -/
theorem Ok.resolved (h : I.Ok) {path : List UInt8} {p : Nat}
    (hres : I.store.resolve path = .done (some p)) :
    ∃ inode b s, I.inodes p = some inode ∧ I.InodeOk p inode ∧ inode.blockIds[0]? = some b ∧
      I.slots b = some s ∧ I.store.firstSlot p = some s := by
  obtain ⟨inode, hget, hok⟩ := h.layout.inode (h.resolve_linked hres).1
  obtain ⟨b, s, hb, _, hs, _⟩ := hok.getElem hok.count_pos
  exact ⟨inode, b, s, hget, hok, hb, hs, firstSlot_eq (block_eq hget hb hs)⟩

/-- A creation in a directory has answers. -/
theorem createIn_ne_outside {isFile : Bool} {p : Nat} {name : List UInt8} {inode : Inode}
    {s : Slot} (hget : I.inodes p = some inode) (hs : I.store.firstSlot p = some s) :
    (I.createIn isFile p name).outcome ≠ .halted .outside := by
  simp only [createIn, hget, hs]
  split
  · rintro ⟨⟩
  split
  · rintro ⟨⟩
  split
  · rintro ⟨⟩
  split
  · split
    · cases isFile <;> rintro ⟨⟩
    · split <;> rintro ⟨⟩
  · rintro ⟨⟩

/-- **A creation** has answers. -/
theorem Ok.create_ne_outside (h : I.Ok) (isFile : Bool) (path : List UInt8) :
    (I.create isFile path).outcome ≠ .halted .outside := by
  unfold create
  rcases hsplit : splitPath path with (_ | ⟨parentPath, name⟩) | e
  · rintro ⟨⟩
  · dsimp only
    rcases hres : I.store.resolve parentPath with (_ | p) | e
    · rintro ⟨⟩
    · obtain ⟨inode, _, s, hget, _, _, _, hs⟩ := h.resolved hres
      exact createIn_ne_outside hget hs
    · rintro ⟨⟩
      exact h.resolve_ne_outside parentPath hres
  · rintro ⟨⟩
    exact splitPath_ne_outside _ hsplit rfl

/-- An open in a directory has answers. -/
theorem openIn_ne_outside {p : Nat} {name : List UInt8} {inode : Inode} {s : Slot}
    (hget : I.inodes p = some inode) (hs : I.store.firstSlot p = some s) :
    (I.openIn p name).1 ≠ .halted .outside := by
  simp only [openIn, hget, hs]
  split
  · rintro ⟨⟩
  split
  · rintro ⟨⟩
  split
  · rintro ⟨⟩
  · split <;> rintro ⟨⟩

/-- **An open** has answers. -/
theorem Ok.openPath_ne_outside (h : I.Ok) (path : List UInt8) :
    (I.openPath path).1 ≠ .halted .outside := by
  unfold openPath
  rcases hsplit : splitPath path with (_ | ⟨parentPath, name⟩) | e
  · rintro ⟨⟩
  · dsimp only
    rcases hres : I.store.resolve parentPath with (_ | p) | e
    · rintro ⟨⟩
    · obtain ⟨inode, _, s, hget, _, _, _, hs⟩ := h.resolved hres
      exact openIn_ne_outside hget hs
    · rintro ⟨⟩
      exact h.resolve_ne_outside parentPath hres
  · rintro ⟨⟩
    exact splitPath_ne_outside _ hsplit rfl

/-! ### Descriptors -/

/-- A close has answers. -/
theorem closeFd_ne_outside (fd : Nat) : (I.closeFd fd).1 ≠ .halted .outside := by
  unfold closeFd
  split <;> rintro ⟨⟩

/-- A seek has answers. -/
theorem seek_ne_outside (fd pos : Nat) : (I.seek fd pos).1 ≠ .halted .outside := by
  unfold seek
  split
  · rintro ⟨⟩
  · rintro ⟨⟩
  · split <;> rintro ⟨⟩

/-- A block that stops the loop of `write_to_file` was stored. -/
theorem WriteRun.ending_ne_outside {i pos : Nat} {data : List UInt8} {r : WriteEnd}
    (hrun : WriteRun i I pos data r) : r.ending ≠ .rejected .outside := by
  induction hrun with
  | patch hd hget hk hblock hs next ih => exact ih
  | append hd hget hk hb hcount next ih => exact ih
  | done => rintro ⟨⟩
  | spoil => rintro ⟨⟩
  | reject => rintro ⟨⟩
  | noBlock => rintro ⟨⟩
  | noEntry => rintro ⟨⟩

/-- **A write** has answers. -/
theorem Ok.write_ne_outside (h : I.Ok) (fd : Nat) (data : List UInt8) :
    (I.write fd data).outcome ≠ .halted .outside := by
  rcases h.write_cases fd data with ⟨_, heq, _⟩ | ⟨_, heq, _⟩ | ⟨i, pos, r, _, _, _, hrun, heq, _⟩
  · rw [heq]
    rintro ⟨⟩
  · rw [heq]
    rintro ⟨⟩
  · have hne := hrun.ending_ne_outside
    rw [heq, finishWrite]
    rcases hend : r.ending with _ | _ | e
    · rintro ⟨⟩
    · rintro ⟨⟩
    · rintro ⟨⟩
      exact hne hend

/-- The loop of `read_file` finds a block under every entry that it visits. -/
theorem Ok.readTurns_ne_outside (h : I.Ok) {i : Nat} {inode : Inode}
    (hget : I.inodes i = some inode) (hok : I.InodeOk i inode) (capacity fuel pos : Nat)
    (dest : List UInt8) (need : Nat) :
    I.readTurns i capacity fuel pos dest need ≠ .halted .outside := by
  -- by induction on the turns
  induction fuel generalizing pos dest need with
  | zero => rintro ⟨⟩
  | succ fuel ih =>
    simp only [readTurns, hget]
    split
    · rintro ⟨⟩
    split
    · rintro ⟨⟩
    rename_i hle
    rcases hb : inode.blockIds[pos / 121]? with _ | b
    · rintro ⟨⟩
    · obtain ⟨s, _, hs, _⟩ := h.readable hok (Nat.not_lt.mp hle) hb
      simp only [hs]
      split
      · rintro ⟨⟩
      split
      · rintro ⟨⟩
      generalize (if need < _ then need else _) = n
      split
      · rintro ⟨⟩
      · exact ih _ _ _

/-- **A read** has answers. -/
theorem Ok.read_ne_outside (h : I.Ok) (fd size capacity : Nat) :
    (I.read fd size capacity).1 ≠ .halted .outside := by
  rcases h.read_cases fd size capacity with ⟨_, heq⟩ | ⟨_, heq⟩ | ⟨i, pos, hres, hi, _, heq⟩
  · rw [heq]
    rintro ⟨⟩
  · rw [heq]
    rintro ⟨⟩
  · rw [heq]
    obtain ⟨inode, hget, hok⟩ := h.layout.inode (h.descriptor hres hi).1
    rcases hturns : I.readTurns i capacity (min size 968) pos [] (min size 968) with r | e
    · rintro ⟨⟩
    · rintro ⟨⟩
      exact h.readTurns_ne_outside hget hok capacity _ pos [] _ hturns

/-! ### `ls` -/

/-- The loop of `ls` over records that all lead to an inode. -/
theorem Ok.run_lsRecords (h : I.Ok) {rs : List BlockRecord}
    (hrs : ∀ r ∈ rs, Taken I.sb.reservedInodesMask r.inodeId) :
    (lsRecords I.sb rs).run hostHandler ⟨I.store, F, [.block, .superblock, .image], T⟩ =
      (.done (), ⟨I.store, F, [], T⟩) := by
  induction rs with
  | nil => simp [lsRecords, leave, Prog.run_bind]
  | cons r rs ih =>
    obtain ⟨hr, hrest⟩ := List.forall_mem_cons.mp hrs
    obtain ⟨inode, hget, _⟩ := h.layout.inode hr
    have hread := run_readInode (S := I.store) (B := I.sb) (F := F) (h := .inode)
      (L := [.block, .superblock, .image]) (T := T) hget h.layout.geometry (by simp) (by simp)
    simp only [lsRecords, Prog.run_bind, hread, follow_done, run_release (List.mem_cons_self ..),
      List.erase_cons_head]
    exact ih hrest

/-- A directory is listed unless its block counts data too, a file is not. -/
theorem Ok.run_lsInode (h : I.Ok) {i : Nat} {inode : Inode} {s : Slot}
    (hi : Taken I.sb.reservedInodesMask i) (hget : I.inodes i = some inode)
    (hs : I.store.firstSlot i = some s) :
    ∃ L', (lsInode I.sb inode).run hostHandler ⟨I.store, F, [.inode, .superblock, .image], T⟩ =
      (if s.Mixed then .halted .memoryError else .done (), ⟨I.store, F, L', T⟩) := by
  simp only [lsInode, Prog.run_bind, run_use (List.mem_cons_self ..), follow_done]
  by_cases hkind : inode.isFile = true
  · have hclean := (h.layout.inodeOk hi hget).firstSlot_clean hget hkind hs
    exact ⟨[], by simp [hkind, hclean, leaveInode, leave, Prog.run_bind]⟩
  · have hd : I.store.IsDir i := ⟨hi, inode, hget, by simpa using hkind⟩
    obtain ⟨inode', b, s', hget', _, _, hb, hslot, hblock, _, hrec⟩ := h.layout.dirBlock hd
    rw [hget] at hget'
    cases hget'
    rw [firstSlot_eq hblock] at hs
    cases hs
    simp only [hkind, Bool.false_eq_true, if_false, Prog.run_bind, run_index_some hb, follow_done]
    by_cases hmixed : s.Mixed
    · have hread := run_readBlock_mixed (S := I.store) (B := I.sb) (F := F) (h := .block)
        (L := [.inode, .superblock, .image]) (T := T) (readBlock_mixed (S := I.store) hslot hmixed)
        h.layout.geometry (by simp) (by simp)
      exact ⟨_, by rw [hread, if_pos hmixed, follow_halted]⟩
    · have hread := run_readBlock (S := I.store) (B := I.sb) (F := F) (h := .block)
        (L := [.inode, .superblock, .image]) (T := T)
        (readBlock_records (S := I.store) hslot hrec hmixed) h.layout.geometry (by simp) (by simp)
      have hrecords : I.store.records i = s.records := records_of_block hblock
      have hloop := h.run_lsRecords (F := F) (T := T)
        (fun r hr => h.record_taken hd (hrecords ▸ hr : r ∈ I.store.records i))
      exact ⟨[], by simpa [hread, hmixed, Prog.run_bind, Block.recordList] using hloop⟩

/-- **`ls`** computes `Image.ls`. -/
theorem Ok.run_ls (h : I.Ok) (path : List UInt8) :
    ∃ L', (MiniExt.ls path).run hostHandler ⟨I.store, F, [], T⟩ =
      (I.ls path, ⟨I.store, F, L', T⟩) := by
  have hg := h.layout.geometry
  obtain ⟨L', hwalk, hL'⟩ := h.run_getInodeIdOfDir (F := F) (T := T) hg path
  simp only [MiniExt.ls, Image.ls, Prog.run_bind, h.run_enter, follow_done, hwalk, hg]
  rcases hres : I.store.resolve path with (_ | i) | e
  · obtain rfl := hL' none hres
    refine ⟨[], ?_⟩
    simp only [Outcome.map_done, follow_done, Option.getD_none]
    exact run_leave
  · obtain rfl := hL' (some i) hres
    obtain ⟨inode, _, s, hget, _, _, _, hs⟩ := h.resolved hres
    have hi := (h.resolve_linked hres).1
    have hread := run_readInode (S := I.store) (B := I.sb) (F := F) (h := .inode)
      (L := [.superblock, .image]) (T := T) hget hg (by simp) (by simp)
    have hne : ¬ i = defaultFsInfo.inodesCount := h.layout.inode_ne hi
    simp only [Outcome.map_done, follow_done, Option.getD_some, hne, if_false, Prog.run_bind, hread,
      Option.isNone_some, Bool.false_eq_true, hs]
    exact h.run_lsInode hi hget hs
  · exact ⟨L', rfl⟩

/-- **`ls`** has answers. -/
theorem Ok.ls_ne_outside (h : I.Ok) (path : List UInt8) : I.ls path ≠ .halted .outside := by
  unfold Image.ls
  rcases hres : I.store.resolve path with (_ | i) | e
  · rintro ⟨⟩
  · obtain ⟨_, _, s, _, _, _, _, hs⟩ := h.resolved hres
    simp only [hs]
    split <;> rintro ⟨⟩
  · rintro ⟨⟩
    exact h.resolve_ne_outside path hres

end Image

/-! ### Every command -/

/-- One part after the other. -/
theorem run_bind_ne_outside {α β : Type} {p : ExtProg α} {f : α → ExtProg β} {m : Machine}
    (hp : (p.run hostHandler m).1 ≠ .halted .outside)
    (hf : ∀ a m', p.run hostHandler m = (.done a, m') →
      ((f a).run hostHandler m').1 ≠ .halted .outside) :
    ((p >>= f).run hostHandler m).1 ≠ .halted .outside := by
  rw [Prog.run_bind]
  rcases hrun : p.run hostHandler m with ⟨a | e, m'⟩
  · exact hf a m' hrun
  · rw [hrun] at hp
    rintro ⟨⟩
    exact hp rfl

namespace Image.Ok

/-- `read_fs` looks at the superblock only. -/
theorem run_readFs (h : I.Ok) :
    readFs.run hostHandler ⟨I.store, F, [], []⟩ = (.done (), ⟨I.store, F, [], []⟩) := by
  have hread := run_readSuperBlock (S := I.store) (B := I.sb) (F := F) (L := [.image]) (T := [])
    rfl (by simp)
  have hmagic : I.sb.fsInfo.magic = magicNumber := by
    rw [h.layout.geometry]
    rfl
  simp [readFs, openFs, Prog.run_bind, hread, hmagic]

/-- A write from a host file has answers. -/
theorem writeFrom_ne_outside (h : I.Ok) (fd : Nat) (path : List UInt8) :
    (exec (writeToFileFromFile fd path) ⟨I.store, F⟩).1 ≠ .halted .outside := by
  refine run_bind_ne_outside (by rintro ⟨⟩) fun r m hread => ?_
  obtain ⟨-, rfl⟩ := Prod.mk.inj ((run_readHostFile path _).symm.trans hread)
  cases r with
  | none => rintro ⟨⟩
  | some buffer =>
    dsimp only
    split
    · rintro ⟨⟩
    · obtain ⟨L', hwrite⟩ := h.run_writeToFile (F := F) fd (buffer.take (buffer.length % 2 ^ 32))
      refine run_bind_ne_outside ?_ fun _ _ _ => by rintro ⟨⟩
      rw [World.start, hwrite]
      exact h.write_ne_outside fd _

/-- A read to a host file has answers, unless that is the image. -/
theorem readTo_ne_outside (h : I.Ok) (fd : Nat) {path : List UInt8} (size : Option Nat)
    (hpath : F.isImage path = false) :
    (exec (readFileToFile fd path size) ⟨I.store, F⟩).1 ≠ .halted .outside := by
  obtain ⟨L', T', hrun⟩ := h.run_readFile (F := F) (T := []) fd (clampSize size) (clampSize size)
  have hread := h.read_ne_outside fd (clampSize size) (clampSize size)
  refine fun hout => ?_
  rw [exec, World.start, h.run_readFileToFile, Prog.run_bind, hrun] at hout
  rcases hres : (I.read fd (clampSize size) (clampSize size)).1 with (_ | buffer) | e
  · rw [hres, follow_done] at hout
    cases hout
  · rw [hres, follow_done, writeRead, Prog.run_bind, run_writeHostFile buffer (by exact hpath)]
      at hout
    cases hout
  · rw [hres, follow_halted] at hout
    cases hout
    exact hread hres

/-- **Every call of every command has an answer**, unless it writes onto the image. -/
theorem answered (h : I.Ok) {F : HostFiles} {c : Command} (hc : ¬ c.OntoImage F) :
    (exec c.prog ⟨I.store, F⟩).1 ≠ .halted .outside := by
  cases c with
  | init =>
    show (exec initFs ⟨I.store, F⟩).1 ≠ _
    rw [exec_eq (run_initFs I.store)]
    rintro ⟨⟩
  | readFs =>
    show (exec readFs ⟨I.store, F⟩).1 ≠ _
    rw [exec_eq h.run_readFs]
    rintro ⟨⟩
  | ls path =>
    obtain ⟨L', hrun⟩ := h.run_ls (F := F) (T := []) path.bytes
    show (exec (MiniExt.ls path.bytes) ⟨I.store, F⟩).1 ≠ _
    rw [exec_eq hrun]
    exact h.ls_ne_outside path.bytes
  | mkdir path =>
    show (exec (createCommand false path.bytes) ⟨I.store, F⟩).1 ≠ _
    rw [h.exec_create]
    exact h.create_ne_outside false path.bytes
  | touch path =>
    show (exec (createCommand true path.bytes) ⟨I.store, F⟩).1 ≠ _
    rw [h.exec_create]
    exact h.create_ne_outside true path.bytes
  | «open» path =>
    have hopen : (exec (openFile path.bytes) ⟨I.store, F⟩).1 ≠ .halted .outside := by
      rw [h.exec_open]
      exact h.openPath_ne_outside path.bytes
    exact run_bind_ne_outside hopen fun _ _ _ => by rintro ⟨⟩
  | close fd =>
    show (exec (closeFile fd) ⟨I.store, F⟩).1 ≠ _
    rw [h.exec_close]
    exact closeFd_ne_outside fd
  | write fd data =>
    have hwrite : (exec (writeToFile fd data) ⟨I.store, F⟩).1 ≠ .halted .outside := by
      rw [h.exec_write]
      exact h.write_ne_outside fd data
    exact run_bind_ne_outside hwrite fun _ _ _ => by rintro ⟨⟩
  | writeFrom fd path => exact h.writeFrom_ne_outside fd path.bytes
  | read fd size =>
    have hread : (exec (readFile fd size commandBufferLength) ⟨I.store, F⟩).1 ≠
        .halted .outside := by
      rw [h.exec_read]
      exact h.read_ne_outside fd size commandBufferLength
    refine run_bind_ne_outside hread fun _ _ _ => ?_
    split <;> rintro ⟨⟩
  | readTo fd path size => exact h.readTo_ne_outside fd size (Bool.eq_false_iff.mpr hc)
  | lseek fd pos =>
    show (exec (lseekPos fd pos) ⟨I.store, F⟩).1 ≠ _
    rw [h.exec_seek]
    exact seek_ne_outside fd pos

end Image.Ok

/-- A command of a run has answers to all of its calls. -/
theorem Reachable.answered {w : World} (hw : Reachable w) {c : Command}
    (hc : ¬ c.OntoImage w.files) : (exec c.prog w).1 ≠ .halted .outside := by
  obtain ⟨I, hI, heq⟩ := hw.image
  rw [heq]
  exact hI.answered hc

/-- **In every run** no command asks for a record that was never written, or stores one outside
    of the geometry, as long as no command writes onto the image. -/
theorem no_call_unanswered {w : World} (hw : Reachable w) {c : Command}
    (hc : ¬ c.OntoImage w.files) : (exec c.prog w).1 ≠ .halted .outside :=
  hw.answered hc

/-- The root is listed as `init` leaves it. -/
theorem no_call_unanswered_root :
    (exec (Command.ls ⟨[slash], by decide⟩).prog
      ((⟨.blank, .onlyImage⟩ : World).step .init)).1 ≠ .halted .outside :=
  no_call_unanswered (.init _) id

end MiniExt
