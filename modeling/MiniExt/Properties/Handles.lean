import MiniExt.Runs.Handles

namespace MiniExt

open Lib

/-!
# Objects are released once

The host answers the calls of a command as it likes.  Whatever it answers, a command should use
and release live objects only, and should leave none of them live when it returns to the client.

`disciplined_iff` says which answers are those on which it does: the superblock can be read; no
block fails in the middle of its records; on the path walk every header can be read; the inode of
the directory and, in a listing, those of its records can be read; a creation finds a free inode
and a free block, all its writes succeed, and the directory can be read again and has room; `write`
finds room for all its bytes; `lseek` gets an open descriptor and a position in range.  Elsewhere a
failed call is handled.

* `hidden` — the answers of a host, which does not see the objects of a command;
* `Disciplined` — the ledger objects to nothing and is empty at the end;
* `Command.Clean` — the answers on which a command is disciplined.
-/

section Commands

variable {ω : Type} (answers : (c : HostCall) → ω → c.Answer × ω)

/-- The environment of a command: any host.  It does not see the objects of the command. -/
def hidden : Environment host ω
  | .acquire _, w => ((), w)
  | .use _, w => ((), w)
  | .release _, w => ((), w)
  | c, w => answers c w

/-- Objects are used and released only while they are live, and when the program returns, none
    is. -/
def Disciplined (w : ω) (p : ExtProg Unit) : Prop :=
  p.Passes ledger (hidden answers) w [] fun _ _ live => live = []

/-! ### Clean answers -/

/-- On the way to a directory no `read_block` returns `-1`, and `Q` holds there. -/
def AtDirectory (path : List UInt8) (sb : Superblock) (w : ω) (Q : Nat → ω → Prop) : Prop :=
  (getInodeIdOfDir path sb).Meets blocksRead.accepts (hidden answers) w fun inodeId w =>
    inodeId ≠ sb.fsInfo.inodesCount → Q inodeId w

/-- `ls`: the inode of the directory and those of its records can be read. -/
def ListsCleanly (path : List UInt8) (w : ω) : Prop :=
  enter.Meets usual.accepts (hidden answers) w fun sb w =>
    AtDirectory answers path sb w fun inodeId w =>
      (readInode .inode sb inodeId).Meets inodesRead.accepts (hidden answers) w fun read w =>
        (lsInode sb (read.getD default)).Meets inodesRead.accepts (hidden answers) w
          fun _ _ => True

/-- `open`: the inode of the directory can be read; if it is a directory and the table can be
    read, the block of the directory does not fail in the middle of its records. -/
def OpensCleanly (path : List UInt8) (w : ω) : Prop :=
  enter.Meets usual.accepts (hidden answers) w fun sb w =>
    ∀ parentPath filename, splitPath path = .done (some (parentPath, filename)) →
      AtDirectory answers parentPath sb w fun inodeId w =>
        (readInode .inode sb inodeId).Meets inodesRead.accepts (hidden answers) w fun read w =>
          ∀ inode, read = some inode → inode.isFile = false →
            (readDescriptorsTable sb).Meets recordsRead.accepts (hidden answers) w fun table w =>
              table ≠ none →
                (getFileInodeId inode filename sb).Meets recordsRead.accepts (hidden answers) w
                  fun _ _ => True

/-- `mkdir` and `touch`: the inode of the directory can be read; if the name is new, there is a
    free inode and a free block, and all the writes of the creation succeed; then the block of
    the directory can be read, has room and can be written. -/
def CreatesCleanly (helper : Superblock → Nat → ExtProg (Nat × Superblock))
    (returnsWhenFull : Bool) (path : List UInt8) (w : ω) : Prop :=
  enter.Meets usual.accepts (hidden answers) w fun sb w =>
    ∀ parentPath dirname, splitPath path = .done (some (parentPath, dirname)) →
      AtDirectory answers parentPath sb w fun inodeId w =>
        (readInode .inode sb inodeId).Meets inodesRead.accepts (hidden answers) w fun read w =>
          ∀ inode, read = some inode → inode.isFile = false →
            (isDirExist inode dirname sb).Meets recordsRead.accepts (hidden answers) w
              fun found w => found = false →
                CanReserve sb ∧
                  (helper sb inodeId).Meets stored.accepts (hidden answers) w fun new w =>
                    (appendRecord new.2 inode new.1 dirname returnsWhenFull).Meets
                      (appendable new.2).accepts (hidden answers) w fun _ _ => True

/-- `write`: if the descriptor is open and the loop comes to an end, there was room. -/
def WritesCleanly (fd : Nat) (data : List UInt8) (w : ω) : Prop :=
  enter.Meets usual.accepts (hidden answers) w fun sb w =>
    (readDescriptorsTable sb).Meets usual.accepts (hidden answers) w fun table w =>
      ∀ dt fdPosition inodeId, table = some dt → dt.reservedFd[fd]? = some true →
        dt.fdToPosition[fd]? = some fdPosition → dt.fdToInode[fd]? = some inodeId →
          (readInode .inode sb inodeId).Meets usual.accepts (hidden answers) w fun read w =>
            ∀ inode, read = some inode →
              let size := min data.length (getMaxDataSizeOfAllBlocks sb.fsInfo)
              let s : WriteState :=
                { sb, dt, inode, fdPosition, data, totalWritten := 0, needToWriteSize := size }
              (writeLoop fd inodeId size size s).Meets usual.accepts (hidden answers) w fun _ _ =>
                HasRoom size size s

/-- `lseek`: the descriptor is open and the position in range. -/
def SeeksCleanly (fd pos : Nat) (w : ω) : Prop :=
  enterTable.Meets usual.accepts (hidden answers) w fun entered _ =>
    ∀ reserved, entered.2.reservedFd[fd]? = some reserved →
      reserved = true ∧ pos < getMaxDataSizeOfAllBlocks entered.1.fsInfo

/-- The answers on which a command is disciplined. -/
def Command.Clean (w : ω) : Command → Prop
  | .ls path => ListsCleanly answers path.bytes w
  | .mkdir path =>
    CreatesCleanly answers (fun sb parentNodeId => createDirHelper sb parentNodeId false) false
      path.bytes w
  | .touch path => CreatesCleanly answers createFileHelper true path.bytes w
  | .open path => OpensCleanly answers path.bytes w
  | .write fd data => WritesCleanly answers fd data w
  | .writeFrom fd path =>
    (readHostFile path.bytes).Meets usual.accepts (hidden answers) w fun file w =>
      ∀ buffer, file = some buffer → buffer.length % 2 ^ 32 ≠ 2 ^ 32 - 1 →
        WritesCleanly answers fd (buffer.take (buffer.length % 2 ^ 32)) w
  | .lseek fd pos => SeeksCleanly answers fd pos w
  | c => c.prog.Meets usual.accepts (hidden answers) w fun _ _ => True

/-! ### Single commands -/

variable {answers} {w : ω}

/-- The end of a command: nothing is live. -/
def empty {α : Type} (_ : α) (_ : ω) (live : List Handle) : Prop := live = []

/-- A use passes when the object is live and the rest passes. -/
theorem passes_use {α : Type} (h : Handle) (f : Unit → ExtProg α) (live : List Handle)
    (Q : α → ω → List Handle → Prop) :
    (use h >>= f).Passes ledger (hidden answers) w live Q ↔
      h ∈ live ∧ (f ()).Passes ledger (hidden answers) w live Q := Iff.rfl

/-- A directory is looked for; when there is none, the command ends. -/
theorem passes_atDirectory {α : Type} {path : List UInt8} {sb : Superblock} {none : ExtProg α}
    {found : Nat → ExtProg α} {Q : Nat → ω → Prop}
    (hnone : Tracks anything none [.superblock, .image] fun _ => [])
    (hfound : ∀ i w, i ≠ sb.fsInfo.inodesCount →
      ((found i).Passes ledger (hidden answers) w [.superblock, .image] empty ↔ Q i w)) :
    (getInodeIdOfDir path sb >>= fun i =>
      if i = sb.fsInfo.inodesCount then none else found i).Passes ledger (hidden answers) w
        [.superblock, .image] empty ↔ AtDirectory answers path sb w Q := by
  refine (tracks_getInodeIdOfDir path sb).passes_bind_iff (fun i w => ?_) w
  by_cases hi : i = sb.fsInfo.inodesCount
  · rw [if_pos hi]
    exact iff_of_true (hnone.passes w) fun hne => absurd hi hne
  · rw [if_neg hi, hfound i w hi]
    exact (imp_iff_right hi).symm

/-- The inode of the directory is read; when it cannot be, the command does not end there. -/
theorem passes_directoryInode {α : Type} {sb : Superblock} {i : Nat} {f : Option Inode → ExtProg α}
    {Q : Option Inode → ω → Prop}
    (hunread : Rejects ledger (hidden answers) (f none) [.superblock, .image] empty)
    (hread : ∀ inode w, (f (some inode)).Passes ledger (hidden answers) w
      [.inode, .superblock, .image] empty ↔ Q (some inode) w) :
    (readInode .inode sb i >>= f).Passes ledger (hidden answers) w [.superblock, .image] empty ↔
      (readInode .inode sb i).Meets inodesRead.accepts (hidden answers) w Q := by
  refine (requires_readInode (by decide) (by decide) _ _ _).passes_bind_iff ?_ ?_ w
  · intro read w hsome
    obtain ⟨inode, rfl⟩ := Option.isSome_iff_exists.mp hsome
    exact hread inode w
  · intro read hnone
    obtain rfl : read = none := Option.not_isSome_iff_eq_none.mp hnone
    exact hunread

/-- The kind of an inode that was not read is looked at. -/
theorem rejects_unread {α : Type} {f : Unit → ExtProg α} :
    Rejects ledger (hidden answers) (leave >>= fun _ => use .inode >>= f) [.superblock, .image]
      empty :=
  .after_leave (rejects_use (by decide))

/-- A path is split; when it cannot be, the command ends. -/
theorem split_iff {A B : Type} {o : Outcome Stop (Option (A × B))} {P : Option (A × B) → Prop}
    {P' : A → B → Prop} (hnone : P none) (hsome : ∀ a b, P (some (a, b)) ↔ P' a b) :
    (∀ r, o = .done r → P r) ↔ ∀ a b, o = .done (some (a, b)) → P' a b := by
  constructor
  · intro h a b ho
    exact (hsome a b).mp (h _ ho)
  · intro h r ho
    rcases r with _ | ⟨a, b⟩
    · exact hnone
    · exact (hsome a b).mpr (h a b ho)

/-- **`ls`** is disciplined exactly on clean answers. -/
theorem passes_ls (path : List UInt8) :
    (ls path).Passes ledger (hidden answers) w [] empty ↔ ListsCleanly answers path w := by
  refine tracks_enter.passes_bind_iff (fun sb w => ?_) w
  refine passes_atDirectory tracks_leave fun i w _ => ?_
  exact passes_directoryInode rejects_unread fun inode w => (closes_lsInode sb inode).iff w

/-- **`open_file`** is disciplined exactly on clean answers. -/
theorem passes_openFile (path : List UInt8) :
    (openFile path).Passes ledger (hidden answers) w [] empty ↔ OpensCleanly answers path w := by
  refine tracks_enter.passes_bind_iff (fun sb w => ?_) w
  rw [Prog.passes_bind, Prog.passes_ofOutcome]
  refine split_iff ((tracks_leave.bind fun _ => reduces_pure rfl).passes w)
    fun parentPath filename => ?_
  refine passes_atDirectory (tracks_leave.bind fun _ => reduces_pure rfl) fun i w _ => ?_
  refine passes_directoryInode rejects_unread fun inode w => ?_
  -- what the condition says of the answer, it says of this inode
  simp only [Option.some.injEq, forall_eq']
  show (use .inode >>= _).Passes ledger (hidden answers) w [Handle.inode, .superblock, .image] _ ↔ _
  rw [passes_use, and_iff_right (by decide)]
  dsimp only [Option.getD_some]
  by_cases hfile : inode.isFile = true
  · rw [if_pos hfile]
    refine iff_of_true ((tracks_leaveInode.bind fun _ => reduces_pure rfl).passes w) fun h => ?_
    rw [hfile] at h
    cases h
  rw [if_neg hfile]
  refine Iff.trans ?_ (imp_iff_right (eq_false_of_ne_true hfile)).symm
  refine (tracks_readDescriptorsTable (by decide) (by decide) _).passes_bind_iff
    (fun table w => ?_) w
  cases table with
  | none =>
    exact iff_of_true ((tracks_leaveInode.bind fun _ => tracks_exitFailure).passes w)
      fun h => absurd rfl h
  | some dt =>
    refine Iff.trans ?_ (imp_iff_right (Option.some_ne_none dt)).symm
    have hlookup : Tracks recordsRead (getFileInodeId inode filename sb)
        [.descriptorsTable, .inode, .superblock, .image]
        fun _ => [.descriptorsTable, .inode, .superblock, .image] :=
      tracks_getFileInodeId (fun _ => Iff.rfl) _ _ _ (by decide) (by decide) (by decide) (by decide)
    refine hlookup.passes_bind_iff
      (fun fileInodeId w => iff_of_true (Reduces.passes ?_ w) trivial) w
    -- all the ways out release the table and the inode
    have hend : ∀ r, Tracks anything (do
        release .descriptorsTable
        leaveInode
        return r : ExtProg (Option Nat)) [.descriptorsTable, .inode, .superblock, .image]
        fun _ => [] := fun r =>
      (tracks_release_head _).bind fun _ => tracks_leaveInode.bind fun _ => reduces_pure rfl
    split
    · exact hend none
    refine (tracks_use (by decide)).bind fun _ => ?_
    split
    · exact hend none
    refine (tracks_writeDescriptorTable (by decide) (by decide) (by decide) _ _).bind
      fun written => ?_
    cases written with
    | true => exact hend _
    | false =>
      exact (tracks_release_head _).bind fun _ => tracks_leaveInode.bind fun _ =>
        tracks_exitFailure

/-- **The creations** are disciplined exactly on clean answers. -/
theorem passes_create {helper : Superblock → Nat → ExtProg (Nat × Superblock)}
    (hhelper : ∀ sb i, ∃ isFile newBlock, helper sb i = createHelper sb isFile newBlock ∧
      ∀ D live b n, Tracks D (newBlock b n) live fun _ => live)
    (returnsWhenFull : Bool) (path : List UInt8) :
    (create helper returnsWhenFull path).Passes ledger (hidden answers) w [] empty ↔
      CreatesCleanly answers helper returnsWhenFull path w := by
  refine tracks_enter.passes_bind_iff (fun sb w => ?_) w
  rw [Prog.passes_bind, Prog.passes_ofOutcome]
  refine split_iff (tracks_leave.passes w) fun parentPath dirname => ?_
  refine passes_atDirectory tracks_leave fun i w _ => ?_
  refine passes_directoryInode rejects_unread fun inode w => ?_
  -- what the condition says of the answer, it says of this inode
  simp only [Option.some.injEq, forall_eq']
  show (use .inode >>= _).Passes ledger (hidden answers) w [Handle.inode, .superblock, .image] _ ↔ _
  rw [passes_use, and_iff_right (by decide)]
  dsimp only [Option.getD_some]
  by_cases hfile : inode.isFile = true
  · rw [if_pos hfile]
    refine iff_of_true (tracks_leaveInode.passes w) fun h => ?_
    rw [hfile] at h
    cases h
  rw [if_neg hfile]
  refine Iff.trans ?_ (imp_iff_right (eq_false_of_ne_true hfile)).symm
  refine (tracks_isDirExist (fun _ => Iff.rfl) _ _ _ (by decide) (by decide) (by decide)
    (by decide)).passes_bind_iff (fun found w => ?_) w
  cases found with
  | true => exact iff_of_true (tracks_leaveInode.passes w) fun h => Bool.noConfusion h
  | false =>
    refine Iff.trans ?_ (imp_iff_right rfl).symm
    obtain ⟨isFile, newBlock, heq, hblock⟩ := hhelper sb i
    show (helper sb i >>= _).Passes ledger (hidden answers) w
      [Handle.inode, .superblock, .image] _ ↔ _
    rw [heq, Prog.passes_bind]
    refine passes_createHelper hblock (by decide) (by decide) (by decide) sb isFile ?_ ?_ w
    · -- nothing was created, and the command goes on with what it released
      intro sb' w hinfo
      dsimp only
      rw [hinfo, if_pos rfl]
      exact (Rejects.after_leaveInode (rejects_use (by decide))).not_passes w
    · intro n sb' w hinfo hn
      dsimp only
      rw [hinfo, if_neg hn]
      exact (closes_appendRecord sb' inode n dirname returnsWhenFull).iff w

/-- **`lseek_pos`** is disciplined exactly on clean answers. -/
theorem passes_lseekPos (fd pos : Nat) :
    (lseekPos fd pos).Passes ledger (hidden answers) w [] empty ↔
      SeeksCleanly answers fd pos w := by
  refine tracks_enterTable.passes_bind_iff (fun entered w => ?_) w
  obtain ⟨sb, dt⟩ := entered
  show (use .descriptorsTable >>= _).Passes ledger (hidden answers) w
    [Handle.descriptorsTable, .superblock, .image] _ ↔ _
  rw [passes_use, and_iff_right (by decide), Prog.passes_bind, passes_index]
  refine forall_congr' fun reserved => imp_congr_right fun _ => ?_
  -- the image is still open when a rejecting branch returns
  have hleak : ¬ (do
      release .descriptorsTable
      release .superblock : ExtProg Unit).Passes ledger (hidden answers) w
        [.descriptorsTable, .superblock, .image] empty :=
    fun hpasses => List.cons_ne_nil Handle.image [] hpasses.2.2
  cases reserved with
  | false => exact iff_of_false hleak fun h => Bool.noConfusion h.1
  | true =>
    by_cases hpos : getMaxDataSizeOfAllBlocks sb.fsInfo ≤ pos
    · rw [if_pos hpos]
      exact iff_of_false hleak fun h => absurd h.2 (Nat.not_lt_of_le hpos)
    · refine iff_of_true (Reduces.passes ?_ w) ⟨rfl, Nat.lt_of_not_le hpos⟩
      rw [if_neg hpos]
      exact (tracks_storeTable _ _).bind fun _ => tracks_leaveTable

/-- `write` on an open descriptor. -/
theorem passes_writeOpen (answers : (c : HostCall) → ω → c.Answer × ω) (fd : Nat)
    (data : List UInt8) (sb : Superblock) (dt : DescriptorsTable) (w : ω)
    (fdPosition inodeId : Nat) :
    let size := min data.length (getMaxDataSizeOfAllBlocks sb.fsInfo)
    (do
      match ← readInode .inode sb inodeId with
      | none =>
        leaveTable
        exitFailure
      | some inode =>
        let s ← writeLoop fd inodeId size size
          { sb, dt, inode, fdPosition, data, totalWritten := 0, needToWriteSize := size }
        storeAll fd s
        return some s.totalWritten : ExtProg (Option Nat)).Passes ledger (hidden answers) w
          [.descriptorsTable, .superblock, .image] empty ↔
      (readInode .inode sb inodeId).Meets usual.accepts (hidden answers) w fun read w =>
        ∀ inode, read = some inode →
          let s : WriteState :=
            { sb, dt, inode, fdPosition, data, totalWritten := 0, needToWriteSize := size }
          (writeLoop fd inodeId size size s).Meets usual.accepts (hidden answers) w fun _ _ =>
            HasRoom size size s := by
  intro size
  refine ((requires_readInode (by decide) (by decide) .inode sb inodeId).reduces
    fun _ => trivial).passes_bind_iff (fun read w => ?_) w
  cases read with
  | none =>
    refine iff_of_true ((tracks_leaveTable.bind fun _ => tracks_exitFailure).passes w) ?_
    rintro inode ⟨⟩
  | some inode =>
    simp only [Option.some.injEq, forall_eq']
    rw [Prog.passes_bind]
    refine (comes_writeLoop fd inodeId size size _ (fun s w => ?_) fun s w => ?_).iff w
    · exact ((tracks_storeAll (fun _ => trivial) (fun _ => trivial) fd s).bind fun _ =>
        reduces_pure rfl).passes w
    · -- the code after the loop uses what the loop released
      exact fun hpasses => List.not_mem_nil hpasses.1

/-- **`write_to_file`** is disciplined exactly on clean answers. -/
theorem passes_writeToFile (fd : Nat) (data : List UInt8) :
    (writeToFile fd data).Passes ledger (hidden answers) w [] empty ↔
      WritesCleanly answers fd data w := by
  refine tracks_enter.passes_bind_iff (fun sb w => ?_) w
  refine (tracks_readDescriptorsTable (by decide) (by decide) sb).passes_bind_iff
    (fun table w => ?_) w
  cases table with
  | none =>
    refine iff_of_true ((tracks_leave.bind fun _ => tracks_exitFailure).passes w) ?_
    rintro dt fdPosition i ⟨⟩
  | some dt =>
    show (use .descriptorsTable >>= _).Passes ledger (hidden answers) w
      [Handle.descriptorsTable, .superblock, .image] _ ↔ _
    rw [passes_use, and_iff_right (by decide), Prog.passes_bind, passes_index]
    have hclosed : ∀ w, (do
        leaveTable
        return none : ExtProg (Option Nat)).Passes ledger (hidden answers) w
          [.descriptorsTable, .superblock, .image] empty :=
      (tracks_leaveTable.bind fun _ => reduces_pure rfl).passes
    have hopen := passes_writeOpen answers fd data sb dt w
    constructor
    · rintro h dt' fdPosition inodeId ⟨⟩ hreserved hposition hinode
      exact hopen fdPosition inodeId |>.mp
        ((passes_index _ _ _).mp (Prog.passes_bind.mp ((passes_index _ _ _).mp
          (Prog.passes_bind.mp (h true hreserved)) fdPosition hposition)) inodeId hinode)
    · intro h reserved hreserved
      cases reserved with
      | false => exact hclosed w
      | true =>
        refine Prog.passes_bind.mpr ((passes_index _ _ _).mpr fun fdPosition hposition => ?_)
        refine Prog.passes_bind.mpr ((passes_index _ _ _).mpr fun inodeId hinode => ?_)
        exact (hopen fdPosition inodeId).mpr
          (h dt fdPosition inodeId rfl hreserved hposition hinode)

/-- **`write_to_file_from_file`** is disciplined exactly on clean answers. -/
theorem passes_writeToFileFromFile (fd : Nat) (path : List UInt8) :
    (writeToFileFromFile fd path).Passes ledger (hidden answers) w [] empty ↔
      (readHostFile path).Meets usual.accepts (hidden answers) w fun file w =>
        ∀ buffer, file = some buffer → buffer.length % 2 ^ 32 ≠ 2 ^ 32 - 1 →
          WritesCleanly answers fd (buffer.take (buffer.length % 2 ^ 32)) w := by
  refine ((requires_ask (.readHostFile path) fun _ => trivial).reduces
    fun _ => trivial).passes_bind_iff (fun file w => ?_) w
  cases file with
  | none =>
    refine iff_of_true rfl ?_
    rintro buffer ⟨⟩
  | some buffer =>
    simp only [Option.some.injEq, forall_eq']
    by_cases hsize : buffer.length % 2 ^ 32 = 2 ^ 32 - 1
    · rw [if_pos hsize]
      exact iff_of_true rfl fun h => absurd hsize h
    · rw [if_neg hsize]
      refine Iff.trans ?_ (imp_iff_right hsize).symm
      exact Prog.passes_bind.trans (passes_writeToFile fd _)

/-! ### Every command -/

/-- **A command is disciplined** exactly on clean answers. -/
theorem disciplined_iff (w : ω) (c : Command) :
    Disciplined answers w c.prog ↔ c.Clean answers w := by
  unfold Disciplined
  cases c with
  | init => exact tracks_initFs.closes.iff w
  | readFs => exact tracks_readFs.closes.iff w
  | ls path => exact passes_ls path.bytes
  | mkdir path =>
    exact passes_create (fun sb i => ⟨false, _, rfl, fun D live b n =>
      tracks_createDirHelper_block D live sb i false b n⟩) false path.bytes
  | touch path =>
    exact passes_create (fun sb i => ⟨true, _, rfl, fun _ _ _ _ => reduces_pure rfl⟩) true
      path.bytes
  | «open» path => exact Prog.passes_bind.trans (passes_openFile path.bytes)
  | close fd => exact (tracks_closeFile fd).closes.iff w
  | write fd data => exact Prog.passes_bind.trans (passes_writeToFile fd data)
  | writeFrom fd path => exact passes_writeToFileFromFile fd path.bytes
  | read fd size => exact (tracks_readCommand fd size).closes.iff w
  | readTo fd path size => exact (tracks_readFileToFile fd path.bytes size).closes.iff w
  | lseek fd pos => exact passes_lseekPos fd pos

end Commands

/-- A host on which nothing fails, with the image that `init` leaves, as far as `lseek` reads it. -/
def freshHost : (c : HostCall) → Unit → c.Answer × Unit
  | .openImage _, w => (true, w)
  | .acquire _, w => ((), w)
  | .use _, w => ((), w)
  | .release _, w => ((), w)
  | .readSuperBlock, w => (some (reserveBlock (reserveInode initSuperBlock).2).2, w)
  | .writeSuperBlock _, w => (true, w)
  | .readDescriptorsTable info, w => (some (initDescriptorsTable info), w)
  | .writeDescriptorTable _ _, w => (true, w)
  | .readInode _ _, w => (none, w)
  | .writeInode _ _, w => (true, w)
  | .readBlock _ _, w => (.failed, w)
  | .writeBlock _ _, w => (.stored, w)
  | .readHostFile _, w => (none, w)
  | .writeHostFile _ _, w => (true, w)

/-- `lseek 0 0` on a fresh image, where no descriptor is open: the image stays open. -/
theorem not_disciplined_lseek : ¬ Disciplined freshHost () (Command.lseek 0 0).prog := by
  intro hdisciplined
  have hclean := (passes_lseekPos 0 0).mp hdisciplined
  have hreserved := hclean.2.2.2.2.2.2.2.2.2.2 false rfl
  exact Bool.noConfusion hreserved.1

end MiniExt
