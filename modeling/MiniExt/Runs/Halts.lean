import MiniExt.Client
import MiniExt.Lib.Loops
import MiniExt.Runs.Basic

namespace MiniExt

open Lib

/-!
# Where the commands halt

The path walk has a bound on its depth in place of a recursion without one.  No command ever
reaches it: wherever a command halts, the C program exits, is killed or leaves its memory.
-/

/-- The program never runs out of a bound of its own. -/
structure Complete {α : Type} (p : ExtProg α) : Prop where
  haltsIn : p.HaltsIn (· ≠ .outside)

section Parts

variable {α β : Type}

/-- A value has no bound. -/
theorem complete_pure (a : α) : Complete (pure a) := ⟨Prog.haltsIn_pure a⟩

/-- Parts one after the other have no bound, when none of them has. -/
theorem Complete.bind {p : ExtProg α} {f : α → ExtProg β} (hp : Complete p)
    (hf : ∀ a, Complete (f a)) : Complete (p >>= f) :=
  ⟨Prog.HaltsIn.bind hp.haltsIn fun a => (hf a).haltsIn⟩

/-- A call has no bound. -/
theorem complete_ask (c : HostCall) : Complete (ask c) :=
  ⟨Prog.haltsIn_perform (I := host) c⟩

/-- A use has no bound. -/
theorem complete_use (h : Handle) : Complete (use h) := complete_ask _

/-- An acquisition has no bound. -/
theorem complete_acquire (h : Handle) : Complete (acquire h) := complete_ask _

/-- A release has no bound. -/
theorem complete_release (h : Handle) : Complete (release h) := complete_ask _

/-- An exit is a halt of the C program. -/
theorem complete_exitFailure : Complete (exitFailure : ExtProg α) := ⟨Stop.noConfusion⟩

/-- A memory error is a halt of the C program. -/
theorem complete_memoryError : Complete (halt .memoryError : ExtProg α) := ⟨Stop.noConfusion⟩

/-- So is `abort`. -/
theorem complete_abort : Complete (halt .abort : ExtProg α) := ⟨Stop.noConfusion⟩

/-- A computed outcome halts as it was computed. -/
theorem complete_ofOutcome {o : Outcome Stop α} (h : ∀ e, o = .halted e → e ≠ .outside) :
    Complete (Prog.ofOutcome o) := ⟨Prog.haltsIn_ofOutcome h⟩

/-- An access to an array halts at most with a memory error. -/
theorem complete_index (xs : List α) (i : Nat) : Complete (index xs i) := by
  unfold index
  split
  · exact complete_pure _
  · exact complete_memoryError

/-! ### Codecs -/

/-- A read: what was read becomes live. -/
theorem complete_acquired {r : Option α} {h : Handle} :
    Complete (do
      if r.isSome then acquire h
      return r : ExtProg (Option α)) := by
  split
  · exact (complete_acquire h).bind fun _ => complete_pure _
  · exact complete_pure _

/-- Opening the image never runs out of a bound. -/
theorem complete_openImage (truncate : Bool) : Complete (openImage truncate) := by
  refine (complete_ask _).bind fun opened => ?_
  dsimp only
  split
  · exact (complete_acquire _).bind fun _ => complete_pure _
  · exact complete_pure _

/-- `read_super_block` never runs out of a bound. -/
theorem complete_readSuperBlock : Complete readSuperBlock :=
  (complete_use _).bind fun _ => (complete_ask _).bind fun _ => complete_acquired

/-- `write_super_block` never runs out of a bound. -/
theorem complete_writeSuperBlock (sb : Superblock) : Complete (writeSuperBlock sb) :=
  (complete_use _).bind fun _ => (complete_use _).bind fun _ => complete_ask _

/-- `read_descriptors_table` never runs out of a bound. -/
theorem complete_readDescriptorsTable (sb : Superblock) : Complete (readDescriptorsTable sb) :=
  (complete_use _).bind fun _ => (complete_use _).bind fun _ => (complete_ask _).bind fun _ =>
    complete_acquired

/-- `write_descriptor_table` never runs out of a bound. -/
theorem complete_writeDescriptorTable (sb : Superblock) (dt : DescriptorsTable) :
    Complete (writeDescriptorTable sb dt) :=
  (complete_use _).bind fun _ => (complete_use _).bind fun _ => (complete_use _).bind fun _ =>
    complete_ask _

/-- `read_inode` never runs out of a bound. -/
theorem complete_readInode (h : Handle) (sb : Superblock) (i : Nat) :
    Complete (readInode h sb i) :=
  (complete_use _).bind fun _ => (complete_use _).bind fun _ => (complete_ask _).bind fun _ =>
    complete_acquired

/-- `write_inode` never runs out of a bound. -/
theorem complete_writeInode (h : Handle) (sb : Superblock) (inode : Inode) :
    Complete (writeInode h sb inode) :=
  (complete_use _).bind fun _ => (complete_use _).bind fun _ => (complete_use _).bind fun _ =>
    complete_ask _

/-- `read_block` halts at most with a memory error. -/
theorem complete_readBlock (h : Handle) (sb : Superblock) (b : Nat) :
    Complete (readBlock h sb b) := by
  refine (complete_use _).bind fun _ => (complete_use _).bind fun _ => (complete_ask _).bind
    fun r => ?_
  cases r with
  | read block => exact (complete_acquire _).bind fun _ => complete_pure _
  | failed => exact complete_pure _
  | mixed => exact complete_memoryError
  | destructed => exact (complete_release _).bind fun _ => complete_memoryError

/-- `write_block` halts at most with a memory error. -/
theorem complete_writeBlock (h : Handle) (sb : Superblock) (block : Block) :
    Complete (writeBlock h sb block) := by
  refine (complete_use _).bind fun _ => (complete_use _).bind fun _ => (complete_use _).bind
    fun _ => (complete_ask _).bind fun r => ?_
  cases r with
  | stored => exact complete_pure _
  | failed => exact complete_pure _
  | rejected => exact complete_pure _
  | destructed =>
    exact (complete_release _).bind fun _ => (complete_release _).bind fun _ => complete_memoryError

/-! ### Epilogues and prologues -/

/-- Leaving a command never runs out of a bound. -/
theorem complete_leave : Complete leave :=
  (complete_release _).bind fun _ => complete_release _

/-- Nor does leaving with an inode. -/
theorem complete_leaveInode : Complete leaveInode :=
  (complete_release _).bind fun _ => complete_leave

/-- Nor does leaving with the table. -/
theorem complete_leaveTable : Complete leaveTable :=
  (complete_release _).bind fun _ => complete_leave

/-- An exit after the releases is a halt of the C program. -/
theorem complete_exitReleased : Complete exitReleased :=
  (complete_release _).bind fun _ => complete_leave.bind fun _ => complete_exitFailure

/-- Opening the file system never runs out of a bound. -/
theorem complete_openFs : Complete openFs := by
  refine (complete_openImage _).bind fun opened => ?_
  split
  · exact complete_exitFailure
  refine complete_readSuperBlock.bind fun sb => (complete_use _).bind fun _ => ?_
  dsimp only
  split
  · exact (complete_release _).bind fun _ => (complete_release _).bind fun _ =>
      complete_exitFailure
  · exact complete_pure _

/-- Nor does the start of a command. -/
theorem complete_enter : Complete enter := by
  refine complete_openFs.bind fun sb => (complete_index _ _).bind fun reserved => ?_
  split
  · exact (complete_release _).bind fun _ => (complete_release _).bind fun _ =>
      complete_exitFailure
  · exact complete_pure _

/-- Nor does the start with the table. -/
theorem complete_enterTable : Complete enterTable := by
  refine complete_enter.bind fun sb => (complete_readDescriptorsTable sb).bind fun dt => ?_
  split
  · exact complete_leave.bind fun _ => complete_exitFailure
  · exact complete_pure _

/-- Storing the table never runs out of a bound. -/
theorem complete_storeTable (sb : Superblock) (dt : DescriptorsTable) :
    Complete (storeTable sb dt) := by
  refine (complete_writeDescriptorTable sb dt).bind fun stored => ?_
  split
  · exact complete_leaveTable.bind fun _ => complete_exitFailure
  · exact complete_pure _

/-! ### The path walk -/

/-- The search in a record list halts at most with a memory error. -/
theorem findRecord_ne_outside {rs : List BlockRecord} {name : List UInt8} :
    ∀ e, findRecord rs name = .halted e → e ≠ .outside := by
  induction rs with
  | nil =>
    intro e he
    cases he
  | cons r rs ih =>
    intro e he
    rw [findRecord] at he
    split at he
    · cases he
      exact Stop.noConfusion
    · cases he
    · exact ih e he

/-- `split_path` halts only as the C program does. -/
theorem splitPath_ne_outside {path : List UInt8} :
    ∀ e, splitPath path = .halted e → e ≠ .outside := by
  intro e he
  unfold splitPath at he
  dsimp only at he
  by_cases h₁ : path.length % 2 ^ 16 = 0 ∨ bufferLength < path.length % 2 ^ 16
  · rw [if_pos h₁] at he
    cases he
    exact Stop.noConfusion
  rw [if_neg h₁] at he
  generalize path.take (path.length % 2 ^ 16) = copied at he
  by_cases h₂ : copied.getLast? ≠ some slash ∧ path.length % 2 ^ 16 = bufferLength
  · rw [if_pos h₂] at he
    cases he
    exact Stop.noConfusion
  rw [if_neg h₂] at he
  generalize (if copied.getLast? = some slash then copied.dropLast else copied) = buffer at he
  generalize lastSlash buffer buffer.length (strchr buffer slash 1) 0 = last at he
  -- the other branches return
  by_cases h₃ : buffer.head? ≠ some slash
  · rw [if_pos h₃] at he
    cases he
  by_cases h₄ : buffer.drop (last + 1) = []
  · rw [if_neg h₃, if_pos h₄] at he
    cases he
  · rw [if_neg h₃, if_neg h₄] at he
    cases he

/-- **The walk** ends before its bound: the rest of the path gets shorter at each level. -/
theorem complete_getInodeIdOfDirRec (sb : Superblock) {fuel : Nat} (depth : Nat)
    {path : List UInt8} (current : Nat) (hfuel : path.length < fuel) :
    Complete (getInodeIdOfDirRec sb fuel depth path current) := by
  induction fuel generalizing depth path current with
  | zero => exact absurd hfuel (Nat.not_lt_zero _)
  | succ fuel ih =>
    refine (complete_readInode _ _ _).bind fun read => ?_
    split
    · exact complete_pure _
    refine (complete_use _).bind fun _ => ?_
    split
    · exact (complete_release _).bind fun _ => complete_pure _
    rcases parsePath_cases sb.fsInfo path with ⟨e, hparse, he⟩ | ⟨name, rest, hparse, -, hrest⟩
    · rw [hparse]
      exact ⟨he⟩
    rw [hparse]
    show Complete (if name = [slash] then _ else _)
    split
    · exact (complete_release _).bind fun _ => complete_pure _
    refine (complete_index _ _).bind fun b => (complete_readBlock _ _ _).bind fun block =>
      (complete_use _).bind fun _ => (complete_ofOutcome findRecord_ne_outside).bind fun found => ?_
    split
    · exact (complete_release _).bind fun _ => (complete_release _).bind fun _ => complete_pure _
    · exact (complete_release _).bind fun _ => (complete_release _).bind fun _ => complete_pure _
    · -- one level down, on what is left of the path
      refine (ih _ _ ?_).bind fun _ => (complete_release _).bind fun _ =>
        (complete_release _).bind fun _ => complete_pure _
      have hshorter := hrest _ rfl
      omega

/-- **`get_inode_id_of_dir`** never reaches the bound of its depth. -/
theorem complete_getInodeIdOfDir (path : List UInt8) (sb : Superblock) :
    Complete (getInodeIdOfDir path sb) := by
  refine (complete_getInodeIdOfDirRec _ _ _ (Nat.lt_succ_self _)).bind fun found => ?_
  split
  · exact complete_pure _
  · exact complete_pure _

/-- A lookup never runs out of a bound. -/
theorem complete_lookup (inode : Inode) (name : List UInt8) (sb : Superblock) :
    Complete (lookup inode name sb) := by
  refine (complete_use _).bind fun _ => (complete_index _ _).bind fun b =>
    (complete_readBlock _ _ _).bind fun block => ?_
  split
  · exact complete_exitFailure
  · exact (complete_ofOutcome findRecord_ne_outside).bind fun _ =>
      (complete_release _).bind fun _ => complete_pure _

/-! ### Creation -/

/-- The creation of an inode never runs out of a bound. -/
theorem complete_createHelper (sb : Superblock) (isFile : Bool)
    {newBlock : Nat → Nat → ExtProg Block} (hblock : ∀ b i, Complete (newBlock b i)) :
    Complete (createHelper sb isFile newBlock) := by
  refine (complete_use _).bind fun _ => ?_
  dsimp only
  split
  · exact complete_pure _
  split
  · exact complete_pure _
  refine (complete_acquire _).bind fun _ => (complete_index _ _).bind fun _ =>
    (hblock _ _).bind fun block => (complete_acquire _).bind fun _ =>
    (complete_writeBlock _ _ _).bind fun stored => ?_
  split
  · exact (complete_release _).bind fun _ => (complete_release _).bind fun _ => complete_pure _
  refine (complete_release _).bind fun _ => (complete_writeInode _ _ _).bind fun stored => ?_
  split
  · exact (complete_release _).bind fun _ => complete_pure _
  refine (complete_release _).bind fun _ => (complete_writeSuperBlock _).bind fun stored => ?_
  split
  · exact complete_pure _
  · exact complete_pure _

/-- `create_dir_helper` never runs out of a bound. -/
theorem complete_createDirHelper (sb : Superblock) (parent : Nat) (isRoot : Bool) :
    Complete (createDirHelper sb parent isRoot) := by
  refine complete_createHelper sb false fun b i => ?_
  split
  · exact complete_memoryError
  · exact complete_pure _

/-- `create_file_helper` never runs out of a bound. -/
theorem complete_createFileHelper (sb : Superblock) (parent : Nat) :
    Complete (createFileHelper sb parent) :=
  complete_createHelper sb true fun _ _ => complete_pure _

/-- `if b then p; q`: both ways go on with the rest. -/
theorem complete_optional {c : Prop} [Decidable c] {p : ExtProg Unit} {q : ExtProg β}
    (hp : Complete p) (hq : Complete q) : Complete (do
      if c then p
      q) := by
  split
  · exact hp.bind fun _ => hq
  · exact hq

/-- Appending a record never runs out of a bound. -/
theorem complete_appendRecord (sb : Superblock) (inode : Inode) (i : Nat) (dirname : List UInt8)
    (returnsWhenFull : Bool) : Complete (appendRecord sb inode i dirname returnsWhenFull) := by
  refine (complete_use _).bind fun _ => (complete_index _ _).bind fun b =>
    (complete_readBlock _ _ _).bind fun read => complete_optional complete_leaveInode ?_
  refine (complete_use _).bind fun _ => (complete_use _).bind fun _ =>
    complete_optional complete_leaveInode ?_
  split
  · exact complete_pure _
  refine (complete_use _).bind fun _ => ?_
  split
  · exact complete_memoryError
  have hend : Complete (do
      release .inode
      release .block
      leave) :=
    (complete_release _).bind fun _ => (complete_release _).bind fun _ => complete_leave
  exact (complete_writeBlock _ _ _).bind fun _ => complete_optional hend hend

/-- **The creations** never run out of a bound. -/
theorem complete_create {helper : Superblock → Nat → ExtProg (Nat × Superblock)}
    (hhelper : ∀ sb i, Complete (helper sb i)) (returnsWhenFull : Bool) (path : List UInt8) :
    Complete (create helper returnsWhenFull path) := by
  refine complete_enter.bind fun sb =>
    (complete_ofOutcome splitPath_ne_outside).bind fun split => ?_
  split
  · exact complete_leave
  refine (complete_getInodeIdOfDir _ _).bind fun i => ?_
  split
  · exact complete_leave
  refine (complete_readInode _ _ _).bind fun read => complete_optional complete_leave ?_
  refine (complete_use _).bind fun _ => ?_
  dsimp only
  split
  · exact complete_leaveInode
  refine ((complete_lookup _ _ _).bind fun _ => complete_pure _).bind fun exist => ?_
  split
  · exact complete_leaveInode
  exact (hhelper _ _).bind fun _ =>
    complete_optional complete_leaveInode (complete_appendRecord _ _ _ _ _)

/-! ### The commands -/

/-- `init_fs` never runs out of a bound. -/
theorem complete_initFs : Complete initFs := by
  refine (complete_openImage _).bind fun opened => ?_
  split
  · exact complete_exitFailure
  refine (complete_acquire _).bind fun _ => (complete_writeSuperBlock _).bind fun stored => ?_
  split
  · exact (complete_release _).bind fun _ => complete_exitFailure
  refine (complete_acquire _).bind fun _ =>
    (complete_writeDescriptorTable _ _).bind fun stored => ?_
  split
  · exact (complete_release _).bind fun _ => (complete_release _).bind fun _ =>
      complete_exitFailure
  · exact (complete_createDirHelper _ _ _).bind fun _ => (complete_release _).bind fun _ =>
      complete_leave

/-- The lines of `ls` never run out of a bound. -/
theorem complete_lsRecords (sb : Superblock) (rs : List BlockRecord) :
    Complete (lsRecords sb rs) := by
  induction rs with
  | nil => exact (complete_release _).bind fun _ => complete_leave
  | cons r rs ih =>
    refine (complete_readInode _ _ _).bind fun read => ?_
    split
    · exact complete_leave
    · exact (complete_release _).bind fun _ => ih

/-- The listing of an inode never runs out of a bound. -/
theorem complete_lsInode (sb : Superblock) (inode : Inode) : Complete (lsInode sb inode) := by
  refine (complete_use _).bind fun _ => ?_
  split
  · exact complete_leaveInode
  refine (complete_index _ _).bind fun b => (complete_readBlock _ _ _).bind fun block => ?_
  split
  · exact complete_leaveInode
  · exact (complete_release _).bind fun _ => complete_lsRecords _ _

/-- **`ls`** never runs out of a bound. -/
theorem complete_ls (path : List UInt8) : Complete (ls path) := by
  refine complete_enter.bind fun sb => (complete_getInodeIdOfDir _ _).bind fun i => ?_
  split
  · exact complete_leave
  · exact (complete_readInode _ _ _).bind fun _ =>
      complete_optional complete_leave (complete_lsInode _ _)

/-- **`open_file`** never runs out of a bound. -/
theorem complete_openFile (path : List UInt8) : Complete (openFile path) := by
  refine complete_enter.bind fun sb =>
    (complete_ofOutcome splitPath_ne_outside).bind fun split => ?_
  split
  · exact complete_leave.bind fun _ => complete_pure _
  refine (complete_getInodeIdOfDir _ _).bind fun i => ?_
  split
  · exact complete_leave.bind fun _ => complete_pure _
  refine (complete_readInode _ _ _).bind fun read => complete_optional complete_leave ?_
  refine (complete_use _).bind fun _ => ?_
  dsimp only
  split
  · exact complete_leaveInode.bind fun _ => complete_pure _
  refine (complete_readDescriptorsTable _).bind fun dt => ?_
  split
  · exact complete_leaveInode.bind fun _ => complete_exitFailure
  refine ((complete_lookup _ _ _).bind fun _ => complete_pure _).bind fun file => ?_
  have hend : Complete (do
      release .descriptorsTable
      leaveInode
      return none : ExtProg (Option Nat)) :=
    (complete_release _).bind fun _ => complete_leaveInode.bind fun _ => complete_pure _
  split
  · exact hend
  refine (complete_use _).bind fun _ => ?_
  split
  · exact hend
  refine (complete_writeDescriptorTable _ _).bind fun stored => ?_
  split
  · exact (complete_release _).bind fun _ => complete_leaveInode.bind fun _ => complete_exitFailure
  · exact (complete_release _).bind fun _ => complete_leaveInode.bind fun _ => complete_pure _

/-- **`close_file`** never runs out of a bound. -/
theorem complete_closeFile (fd : Nat) : Complete (closeFile fd) :=
  complete_enterTable.bind fun _ => (complete_use _).bind fun _ =>
    (complete_index _ _).bind fun _ => (complete_storeTable _ _).bind fun _ => complete_leaveTable

/-- **`lseek_pos`** never runs out of a bound. -/
theorem complete_lseekPos (fd pos : Nat) : Complete (lseekPos fd pos) := by
  refine complete_enterTable.bind fun entered => (complete_use _).bind fun _ =>
    (complete_index _ _).bind fun reserved => ?_
  split
  · exact (complete_release _).bind fun _ => complete_release _
  split
  · exact (complete_release _).bind fun _ => complete_release _
  · exact (complete_storeTable _ _).bind fun _ => complete_leaveTable

/-- The epilogue of a write never runs out of a bound. -/
theorem complete_storeAll (fd : Nat) (s : WriteState) : Complete (storeAll fd s) := by
  refine (complete_use _).bind fun _ => (complete_writeDescriptorTable _ _).bind fun stored => ?_
  split
  · exact (complete_release _).bind fun _ => complete_exitReleased
  refine (complete_release _).bind fun _ => (complete_writeInode _ _ _).bind fun stored => ?_
  split
  · exact complete_exitReleased
  refine (complete_release _).bind fun _ => (complete_writeSuperBlock _).bind fun stored => ?_
  split
  · exact complete_leave.bind fun _ => complete_exitFailure
  · exact complete_leave

/-- Filling a block halts at most with a memory error. -/
theorem complete_fillBlock (s : WriteState) (block : Block) : Complete (fillBlock s block) := by
  refine (complete_use _).bind fun _ => ?_
  generalize (if s.needToWriteSize < _ then _ else _ : Nat) = sizeToWrite
  split
  · exact complete_memoryError
  · exact (complete_writeBlock _ _ _).bind fun _ => complete_optional
      ((complete_release _).bind fun _ => complete_exitReleased)
      ((complete_release _).bind fun _ => complete_pure _)

/-- Appending a block never runs out of a bound. -/
theorem complete_appendBlock (s : WriteState) (i b : Nat) : Complete (appendBlock s i b) :=
  (complete_acquire _).bind fun _ => (complete_index _ _).bind fun _ =>
    (complete_writeInode _ _ _).bind fun _ => complete_optional
      ((complete_release _).bind fun _ => complete_exitReleased) (complete_pure _)

/-- The loop of a write ends within the bound of its turns. -/
theorem complete_writeLoop (fd i size fuel : Nat) (s : WriteState) :
    Complete (writeLoop fd i size fuel s) := by
  induction fuel generalizing s with
  | zero => exact complete_pure _
  | succ fuel ih =>
    unfold writeLoop
    split
    · exact complete_pure _
    refine (complete_use _).bind fun _ => (complete_use _).bind fun _ => ?_
    dsimp only
    split
    · exact complete_abort
    split
    · refine (complete_index _ _).bind fun b => (complete_readBlock _ _ _).bind fun block => ?_
      split
      · exact (complete_release _).bind fun _ => complete_exitReleased.bind fun _ => complete_pure _
      · exact (complete_fillBlock _ _).bind fun _ => ih _
    split
    · exact (complete_storeAll _ _).bind fun _ => complete_pure _
    split
    · exact (complete_storeAll _ _).bind fun _ => complete_pure _
    · exact (complete_appendBlock _ _ _).bind fun _ => (complete_fillBlock _ _).bind fun _ => ih _

/-- **`write_to_file`** never runs out of a bound. -/
theorem complete_writeToFile (fd : Nat) (data : List UInt8) : Complete (writeToFile fd data) := by
  refine complete_enter.bind fun sb => (complete_readDescriptorsTable _).bind fun dt => ?_
  split
  · exact complete_leave.bind fun _ => complete_exitFailure
  refine (complete_use _).bind fun _ => (complete_index _ _).bind fun reserved => ?_
  split
  · exact complete_leaveTable.bind fun _ => complete_pure _
  refine (complete_index _ _).bind fun _ => (complete_index _ _).bind fun i =>
    (complete_readInode _ _ _).bind fun inode => ?_
  split
  · exact complete_leaveTable.bind fun _ => complete_exitFailure
  · exact (complete_writeLoop _ _ _ _ _).bind fun _ => (complete_storeAll _ _).bind fun _ =>
      complete_pure _

/-- **`write_to_file_from_file`** never runs out of a bound. -/
theorem complete_writeToFileFromFile (fd : Nat) (path : List UInt8) :
    Complete (writeToFileFromFile fd path) := by
  refine (complete_ask _).bind fun buffer => ?_
  split
  · exact complete_pure _
  split
  · exact complete_pure _
  · exact (complete_writeToFile _ _).bind fun _ => complete_pure _

/-- The loop of a read ends within the bound of its turns. -/
theorem complete_readLoop (sb : Superblock) (inode : Inode) (size capacity fuel : Nat)
    (s : ReadState) : Complete (readLoop sb inode size capacity fuel s) := by
  induction fuel generalizing s with
  | zero => exact complete_pure _
  | succ fuel ih =>
    unfold readLoop
    split
    · exact complete_pure _
    refine (complete_use _).bind fun _ => (complete_use _).bind fun _ => ?_
    dsimp only
    split
    · exact complete_abort
    split
    · exact complete_pure _
    refine (complete_index _ _).bind fun b => (complete_readBlock _ _ _).bind fun block => ?_
    split
    · exact (complete_release _).bind fun _ => complete_exitReleased.bind fun _ => complete_pure _
    split
    · exact (complete_release _).bind fun _ => complete_pure _
    generalize (if s.needToRead < _ then _ else _ : Nat) = sizeToRead
    split
    · exact complete_memoryError
    · exact (complete_release _).bind fun _ => ih _

/-- **`read_file`** never runs out of a bound. -/
theorem complete_readFile (fd size capacity : Nat) : Complete (readFile fd size capacity) := by
  refine complete_enter.bind fun sb => (complete_readDescriptorsTable _).bind fun dt => ?_
  split
  · exact complete_leave.bind fun _ => complete_exitFailure
  refine (complete_use _).bind fun _ => (complete_index _ _).bind fun reserved => ?_
  split
  · exact complete_leaveTable.bind fun _ => complete_pure _
  refine (complete_index _ _).bind fun _ => (complete_index _ _).bind fun i =>
    (complete_readInode _ _ _).bind fun inode => ?_
  split
  · exact complete_leaveTable.bind fun _ => complete_exitFailure
  · exact (complete_readLoop _ _ _ _ _ _).bind fun _ =>
      (complete_writeDescriptorTable _ _).bind fun _ => complete_optional
        ((complete_release _).bind fun _ => complete_exitReleased)
        ((complete_release _).bind fun _ => complete_leaveInode.bind fun _ => complete_pure _)

/-- **`read_file_to_file`** never runs out of a bound. -/
theorem complete_readFileToFile (fd : Nat) (path : List UInt8) (size : Option Nat) :
    Complete (readFileToFile fd path size) := by
  refine complete_enter.bind fun sb => complete_leave.bind fun _ =>
    (complete_readFile _ _ _).bind fun buffer => ?_
  split
  · exact complete_pure _
  · exact (complete_ask _).bind fun _ => complete_pure _

end Parts

/-- **No command** runs out of a bound of its own. -/
theorem Command.complete (c : Command) : Complete c.prog := by
  cases c with
  | init => exact complete_initFs
  | readFs => exact complete_openFs.bind fun _ => complete_leave
  | ls path => exact complete_ls path.bytes
  | mkdir path => exact complete_create (fun _ _ => complete_createDirHelper _ _ _) _ _
  | touch path => exact complete_create (fun _ _ => complete_createFileHelper _ _) _ _
  | «open» path => exact (complete_openFile path.bytes).bind fun _ => complete_pure _
  | close fd => exact complete_closeFile fd
  | write fd data => exact (complete_writeToFile fd data).bind fun _ => complete_pure _
  | writeFrom fd path => exact complete_writeToFileFromFile fd path.bytes
  | read fd size =>
    refine (complete_readFile fd size _).bind fun _ => ?_
    split
    · exact complete_memoryError
    · exact complete_pure _
  | readTo fd path size => exact complete_readFileToFile fd path.bytes size
  | lseek fd pos => exact complete_lseekPos fd pos

end MiniExt
