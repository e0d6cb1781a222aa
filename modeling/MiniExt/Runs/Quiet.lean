import MiniExt.Run

namespace MiniExt

open Lib

/-!
# `ls` and `read_fs` write nothing

Both commands are quiet whatever the image holds, even an image no run of commands reaches:
every call they can make is a quiet one.
-/

/-! ### Quiet parts -/

section Parts

open Prog

/-- A halt makes no calls. -/
theorem quiet_halt {α : Type} (e : Stop) : Quiet (halt e : ExtProg α) := Within.halt e

/-- An exit makes no calls. -/
theorem quiet_exitFailure {α : Type} : Quiet (exitFailure : ExtProg α) := Within.halt _

/-- An access to an array makes no calls. -/
theorem quiet_index {α : Type} (xs : List α) (i : Nat) : Quiet (index xs i) := by
  unfold index
  split
  · exact Within.pure _
  · exact quiet_halt _

/-- An acquisition is quiet. -/
theorem quiet_acquire (h : Handle) : Quiet (acquire h) := quiet_ask trivial

/-- A use is quiet. -/
theorem quiet_use (h : Handle) : Quiet (use h) := quiet_ask trivial

/-- A release is quiet. -/
theorem quiet_release (h : Handle) : Quiet (release h) := quiet_ask trivial

/-- Opening the image as it is is quiet. -/
theorem quiet_openImage : Quiet (openImage false) := by
  refine Within.bind (quiet_ask rfl) fun opened => ?_
  dsimp only
  split
  · exact Within.bind (quiet_acquire _) fun _ => Within.pure _
  · exact Within.pure _

/-- `read_super_block` is quiet. -/
theorem quiet_readSuperBlock : Quiet readSuperBlock := by
  refine Within.bind (quiet_use _) fun _ => Within.bind (quiet_ask trivial) fun sb => ?_
  dsimp only
  split
  · exact Within.bind (quiet_acquire _) fun _ => Within.pure _
  · exact Within.pure _

/-- `read_inode` is quiet. -/
theorem quiet_readInode (h : Handle) (sb : Superblock) (i : Nat) : Quiet (readInode h sb i) := by
  refine Within.bind (quiet_use _) fun _ => Within.bind (quiet_use _) fun _ =>
    Within.bind (quiet_ask trivial) fun inode => ?_
  dsimp only
  split
  · exact Within.bind (quiet_acquire _) fun _ => Within.pure _
  · exact Within.pure _

/-- `read_block` is quiet. -/
theorem quiet_readBlock (h : Handle) (sb : Superblock) (b : Nat) : Quiet (readBlock h sb b) := by
  refine Within.bind (quiet_use _) fun _ => Within.bind (quiet_use _) fun _ =>
    Within.bind (quiet_ask trivial) fun result => ?_
  cases result with
  | read block => exact Within.bind (quiet_acquire _) fun _ => Within.pure _
  | failed => exact Within.pure _
  | mixed => exact quiet_halt _
  | destructed => exact Within.bind (quiet_release _) fun _ => quiet_halt _

/-- Leaving a command is quiet. -/
theorem quiet_leave : Quiet leave :=
  Within.bind (quiet_release _) fun _ => quiet_release _

/-- Leaving with an inode is quiet. -/
theorem quiet_leaveInode : Quiet leaveInode :=
  Within.bind (quiet_release _) fun _ => quiet_leave

/-- Opening the file system is quiet. -/
theorem quiet_openFs : Quiet openFs := by
  refine Within.bind quiet_openImage fun opened => ?_
  split
  · exact quiet_exitFailure
  refine Within.bind quiet_readSuperBlock fun sb => Within.bind (quiet_use _) fun _ => ?_
  dsimp only
  split
  · exact Within.bind (quiet_release _) fun _ => Within.bind (quiet_release _) fun _ =>
      quiet_exitFailure
  · exact Within.pure _

/-- The start of a command is quiet. -/
theorem quiet_enter : Quiet enter := by
  refine Within.bind quiet_openFs fun sb => Within.bind (quiet_index _ _) fun reserved => ?_
  split
  · exact Within.bind (quiet_release _) fun _ => Within.bind (quiet_release _) fun _ =>
      quiet_exitFailure
  · exact Within.pure _

/-- **The path walk** is quiet. -/
theorem quiet_getInodeIdOfDirRec (sb : Superblock) (fuel depth : Nat) (path : List UInt8)
    (current : Nat) : Quiet (getInodeIdOfDirRec sb fuel depth path current) := by
  induction fuel generalizing depth path current with
  | zero => exact quiet_halt _
  | succ fuel ih =>
    refine Within.bind (quiet_readInode _ _ _) fun read => ?_
    split
    · exact Within.pure _
    refine Within.bind (quiet_use _) fun _ => ?_
    split
    · exact Within.bind (quiet_release _) fun _ => Within.pure _
    refine Within.bind (Within.ofOutcome _) fun parsed => ?_
    simp only
    split
    · exact Within.bind (quiet_release _) fun _ => Within.pure _
    refine Within.bind (quiet_index _ _) fun b => Within.bind (quiet_readBlock _ _ _) fun block =>
      Within.bind (quiet_use _) fun _ => Within.bind (Within.ofOutcome _) fun found => ?_
    split
    · exact Within.bind (quiet_release _) fun _ => Within.bind (quiet_release _) fun _ =>
        Within.pure _
    · exact Within.bind (quiet_release _) fun _ => Within.bind (quiet_release _) fun _ =>
        Within.pure _
    · exact Within.bind (ih _ _ _) fun _ => Within.bind (quiet_release _) fun _ =>
        Within.bind (quiet_release _) fun _ => Within.pure _

/-- `get_inode_id_of_dir` is quiet. -/
theorem quiet_getInodeIdOfDir (path : List UInt8) (sb : Superblock) :
    Quiet (getInodeIdOfDir path sb) := by
  refine Within.bind (quiet_getInodeIdOfDirRec _ _ _ _ _) fun found => ?_
  split
  · exact Within.pure _
  · exact Within.pure _

/-- The lines of `ls` are quiet. -/
theorem quiet_lsRecords (sb : Superblock) (rs : List BlockRecord) : Quiet (lsRecords sb rs) := by
  induction rs with
  | nil => exact Within.bind (quiet_release _) fun _ => quiet_leave
  | cons r rs ih =>
    refine Within.bind (quiet_readInode _ _ _) fun read => ?_
    split
    · exact quiet_leave
    · exact Within.bind (quiet_release _) fun _ => ih

/-- The listing of an inode is quiet. -/
theorem quiet_lsInode (sb : Superblock) (inode : Inode) : Quiet (lsInode sb inode) := by
  refine Within.bind (quiet_use _) fun _ => ?_
  split
  · exact quiet_leaveInode
  refine Within.bind (quiet_index _ _) fun b => Within.bind (quiet_readBlock _ _ _) fun block => ?_
  split
  · exact quiet_leaveInode
  · exact Within.bind (quiet_release _) fun _ => quiet_lsRecords _ _

end Parts

/-! ### The two commands -/

open Prog in
/-- **`read_fs`** writes nothing. -/
theorem quiet_readFs : Quiet readFs := Within.bind quiet_openFs fun _ => quiet_leave

open Prog in
/-- **`ls`** writes nothing. -/
theorem quiet_ls (path : List UInt8) : Quiet (ls path) := by
  refine Within.bind quiet_enter fun sb => Within.bind (quiet_getInodeIdOfDir _ _) fun i => ?_
  split
  · exact quiet_leave
  refine Within.bind (quiet_readInode _ _ _) fun read => ?_
  dsimp only
  split
  · exact Within.bind quiet_leave fun _ => quiet_lsInode _ _
  · exact quiet_lsInode _ _

end MiniExt
