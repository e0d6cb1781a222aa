import MiniExt.Interface.PathPrinting

namespace MiniExt

open Lib

/-!
# What the commands say

The result of a command goes to `stdout`, its complaints to `stderr`.  Most functions print no
result; those that do say it once, before they return it, so that what stands on `stdout` is known
from what a function returns.

* `Output.isResult`, `Mute` — the prints on `stdout`, and programs without one;
* `mute_getInodeIdOfDir`, `mute_createDir`, … — such programs;
* `says_openFile`, `says_writeToFile`, `says_readFile` — the others, but for `ls`.
-/

/-- The print goes to `stdout`. -/
def Output.isResult : Output → Bool
  | .stderr _ | .strerror _ => false
  | .stdout _ _ => true

namespace Printing

/-- A program that prints no result. -/
abbrev Mute {α : Type} (p : Printing α) : Prop := Prog.Mute Output.isResult p

/-- A program that, ending with `a`, has printed the results `g a`, with those of before. -/
abbrev Says {α : Type} (p : Printing α) (out : List Output) (g : α → List Output) : Prop :=
  Prog.Says Output.isResult p out g

variable {α : Type} {out : List Output}

/-! ### Small programs -/

/-- A program that does not print says nothing on `stdout`. -/
theorem mute_liftM (p : ExtProg α) : Mute (liftM p : Printing α) := Prog.mute_lift p

/-- A message on `stderr` is not on `stdout`. -/
theorem mute_eprint (text : String) : Mute (eprint text) := Prog.mute_print rfl

/-- A complaint is not on `stdout`. -/
theorem mute_complain (codec : Codec) : Mute (complain codec) := Prog.mute_print rfl

/-- A value says nothing. -/
theorem mute_pure (a : α) : Mute (pure a : Printing α) := Prog.mute_pure a

/-- A line is said. -/
theorem says_printf (format : String) (args : List Arg) :
    Says (printf format args) out fun _ => out ++ [.stdout format args] := Prog.says_print rfl

/-- A part that prints nothing. -/
theorem utters_liftM {p : ExtProg α} {m m' : Machine} {a : α}
    (h : p.run hostHandler m = (.done a, m')) :
    (liftM p : Printing α).Utters hostHandler Output.isResult m a [] m' := Prog.utters_lift h

/-- A complaint that a branch may make before the rest. -/
theorem mute_optional {c : Prop} [Decidable c] {p : Printing Unit} {q : Printing α} (hp : Mute p)
    (hq : Mute q) : Mute (if c then p >>= fun _ => q else q) := by
  split
  · exact hp.seq fun _ => hq
  · exact hq

/-! ### Codecs -/

/-- A codec that reads says nothing. -/
theorem mute_reading (codec : Codec) (p : ExtProg (Option α)) : Mute (reading codec p) :=
  (mute_liftM p).seq fun read => mute_optional (mute_complain codec) (mute_pure read)

/-- A codec that writes says nothing. -/
theorem mute_writing (codec : Codec) (p : ExtProg Bool) : Mute (writing codec p) :=
  (mute_liftM p).seq fun written => mute_optional (mute_complain codec) (mute_pure written)

/-- `read_block` says nothing. -/
theorem mute_readBlock (h : Handle) (sb : Superblock) (b : Nat) : Mute (readBlock h sb b) := by
  refine (mute_liftM _).seq fun _ => (mute_liftM _).seq fun _ => (mute_liftM _).seq fun r => ?_
  cases r with
  | read block => exact (mute_liftM _).seq fun _ => mute_pure _
  | failed => exact (mute_complain _).seq fun _ => mute_pure _
  | mixed => exact (mute_eprint _).seq fun _ => mute_liftM _
  | destructed =>
    exact (mute_complain _).seq fun _ => (mute_complain _).seq fun _ => (mute_liftM _).seq
      fun _ => mute_liftM _

/-- `write_block` says nothing. -/
theorem mute_writeBlock (h : Handle) (sb : Superblock) (block : Block) :
    Mute (writeBlock h sb block) := by
  refine (mute_liftM _).seq fun _ => (mute_liftM _).seq fun _ => (mute_liftM _).seq fun _ =>
    (mute_liftM _).seq fun r => ?_
  cases r with
  | stored => exact mute_pure _
  | failed => exact (mute_complain _).seq fun _ => mute_pure _
  | rejected => exact (mute_eprint _).seq fun _ => mute_pure _
  | destructed =>
    exact (mute_complain _).seq fun _ => (mute_complain _).seq fun _ => (mute_liftM _).seq
      fun _ => (mute_liftM _).seq fun _ => mute_liftM _

/-! ### The common parts -/

/-- Opening the file system says nothing. -/
theorem mute_openFs : Mute openFs := by
  refine (mute_liftM _).seq fun opened => ?_
  split
  · exact (mute_eprint _).seq fun _ => mute_liftM _
  refine (mute_reading _ _).seq fun read => (mute_liftM _).seq fun _ => ?_
  dsimp only
  split
  · exact (mute_eprint _).seq fun _ => (mute_liftM _).seq fun _ => (mute_liftM _).seq fun _ =>
      mute_liftM _
  · exact mute_pure _

/-- The start of a command says nothing. -/
theorem mute_enter : Mute enter := by
  refine mute_openFs.seq fun sb => (mute_liftM _).seq fun reserved => ?_
  split
  · exact (mute_eprint _).seq fun _ => (mute_liftM _).seq fun _ => (mute_liftM _).seq fun _ =>
      mute_liftM _
  · exact mute_pure _

/-- The start with the table says nothing. -/
theorem mute_enterTable : Mute enterTable := by
  refine mute_enter.seq fun sb => (mute_reading _ _).seq fun read => ?_
  cases read with
  | none => exact (mute_eprint _).seq fun _ => (mute_liftM _).seq fun _ => mute_liftM _
  | some dt => exact mute_pure _

/-- Storing the table says nothing. -/
theorem mute_storeTable (sb : Superblock) (dt : DescriptorsTable) : Mute (storeTable sb dt) := by
  refine (mute_writing _ _).seq fun written => ?_
  split
  · exact (mute_eprint _).seq fun _ => (mute_liftM _).seq fun _ => mute_liftM _
  · exact mute_pure _

/-- `parse_path` says nothing. -/
theorem mute_parsePath (info : FsInfo) (path : List UInt8) : Mute (parsePath info path) := by
  unfold parsePath
  split
  · exact (mute_eprint _).seq fun _ => mute_liftM _
  · exact Prog.mute_halt _
  · exact mute_pure _

/-- `split_path` says nothing. -/
theorem mute_splitPath (path : List UInt8) : Mute (splitPath path) := by
  unfold splitPath
  split
  · exact Prog.mute_halt _
  · exact mute_optional (mute_eprint _) (mute_pure _)
  · exact mute_pure _

/-- **The walk** complains on `stderr` only. -/
theorem mute_getInodeIdOfDirRec (sb : Superblock) (fuel depth : Nat) (path : List UInt8)
    (current : Nat) : Mute (getInodeIdOfDirRec sb fuel depth path current) := by
  induction fuel generalizing depth path current with
  | zero => exact Prog.mute_halt _
  | succ fuel ih =>
    refine (mute_reading _ _).seq fun read => ?_
    cases read with
    | none => exact (mute_eprint _).seq fun _ => mute_pure _
    | some inode =>
      refine (mute_liftM _).seq fun _ => ?_
      split
      · exact (mute_eprint _).seq fun _ => (mute_liftM _).seq fun _ => mute_pure _
      refine (mute_parsePath _ _).seq fun parsed => ?_
      dsimp only
      split
      · exact (mute_liftM _).seq fun _ => mute_pure _
      refine (mute_liftM _).seq fun _ => (mute_readBlock _ _ _).seq fun _ =>
        (mute_liftM _).seq fun _ => (Prog.mute_ofOutcome _).seq fun found => ?_
      have hend : ∀ r, Mute (do
          release (.walkBlock depth)
          release (.walkInode depth)
          return r : Printing (Option Nat)) := fun r =>
        (mute_liftM _).seq fun _ => (mute_liftM _).seq fun _ => mute_pure r
      split
      · exact (mute_eprint _).seq fun _ => hend none
      · exact hend _
      · exact (ih _ _ _).seq hend

/-- `get_inode_id_of_dir` says nothing. -/
theorem mute_getInodeIdOfDir (path : List UInt8) (sb : Superblock) :
    Mute (getInodeIdOfDir path sb) := by
  refine (mute_getInodeIdOfDirRec _ _ _ _ _).seq fun found => ?_
  cases found with
  | none => exact (mute_eprint _).seq fun _ => mute_pure _
  | some i => exact mute_pure _

/-- A lookup says nothing. -/
theorem mute_lookup (inode : Inode) (dirname : List UInt8) (sb : Superblock) :
    Mute (lookup inode dirname sb) := by
  refine (mute_liftM _).seq fun _ => (mute_liftM _).seq fun _ =>
    (mute_readBlock _ _ _).seq fun read => ?_
  cases read with
  | none => exact (mute_eprint _).seq fun _ => mute_liftM _
  | some block =>
    exact (Prog.mute_ofOutcome _).seq fun found => (mute_liftM _).seq fun _ => mute_pure _

/-! ### Commands without a result -/

/-- The creation of an inode says nothing. -/
theorem mute_createHelper (sb : Superblock) (isFile : Bool)
    (newBlock : Nat → Nat → ExtProg Block) : Mute (createHelper sb isFile newBlock) := by
  refine (mute_liftM _).seq fun _ => ?_
  dsimp only
  split
  · exact (mute_eprint _).seq fun _ => mute_pure _
  split
  · exact (mute_eprint _).seq fun _ => mute_pure _
  refine (mute_liftM _).seq fun _ => (mute_liftM _).seq fun _ => (mute_liftM _).seq fun block =>
    (mute_liftM _).seq fun _ => (mute_writeBlock _ _ _).seq fun stored => ?_
  split
  · exact (mute_eprint _).seq fun _ => (mute_liftM _).seq fun _ => (mute_liftM _).seq fun _ =>
      mute_pure _
  refine (mute_liftM _).seq fun _ => (mute_writing _ _).seq fun stored => ?_
  split
  · exact (mute_eprint _).seq fun _ => (mute_liftM _).seq fun _ => mute_pure _
  refine (mute_liftM _).seq fun _ => (mute_writing _ _).seq fun stored => ?_
  split
  · exact (mute_eprint _).seq fun _ => mute_pure _
  · exact mute_pure _

/-- Appending a record says nothing. -/
theorem mute_appendRecord (sb : Superblock) (inode : Inode) (newInodeId : Nat)
    (dirname : List UInt8) (returnsWhenFull : Bool) :
    Mute (appendRecord sb inode newInodeId dirname returnsWhenFull) := by
  refine (mute_liftM _).seq fun _ => (mute_liftM _).seq fun _ =>
    (mute_readBlock _ _ _).seq fun read =>
    mute_optional ((mute_eprint _).seq fun _ => mute_liftM _) ?_
  refine (mute_liftM _).seq fun _ => (mute_liftM _).seq fun _ =>
    mute_optional ((mute_eprint _).seq fun _ => mute_liftM _) ?_
  split
  · exact mute_pure _
  refine (mute_liftM _).seq fun _ => ?_
  split
  · exact Prog.mute_halt _
  have hend : Mute (do
      release .inode
      release .block
      leave : Printing Unit) :=
    (mute_liftM _).seq fun _ => (mute_liftM _).seq fun _ => mute_liftM _
  refine (mute_writeBlock _ _ _).seq fun stored => ?_
  split
  · exact (mute_eprint _).seq fun _ => (mute_liftM _).seq fun _ => (mute_liftM _).seq fun _ =>
      (mute_liftM _).seq fun _ => hend
  · exact hend

/-- **The creations** say nothing. -/
theorem mute_create {helper : Superblock → Nat → Printing (Nat × Superblock)}
    (hhelper : ∀ sb i, Mute (helper sb i)) (returnsWhenFull : Bool) (inFile present : String)
    (path : List UInt8) : Mute (create helper returnsWhenFull inFile present path) := by
  refine mute_enter.seq fun sb => (mute_splitPath _).seq fun parts => ?_
  rcases parts with _ | ⟨parentPath, dirname⟩
  · exact (mute_eprint _).seq fun _ => mute_liftM _
  refine (mute_getInodeIdOfDir _ _).seq fun i => ?_
  split
  · exact (mute_eprint _).seq fun _ => mute_liftM _
  refine (mute_reading _ _).seq fun read =>
    mute_optional ((mute_eprint _).seq fun _ => mute_liftM _) ?_
  refine (mute_liftM _).seq fun _ => ?_
  dsimp only
  split
  · exact (mute_eprint _).seq fun _ => mute_liftM _
  refine ((mute_lookup _ _ _).seq fun _ => mute_pure _).seq fun found => ?_
  split
  · exact (mute_eprint _).seq fun _ => mute_liftM _
  refine (hhelper _ _).seq fun new => ?_
  exact mute_optional ((mute_eprint _).seq fun _ => mute_liftM _) (mute_appendRecord _ _ _ _ _)

/-- `create_dir` says nothing. -/
theorem mute_createDir (path : List UInt8) : Mute (createDir path) :=
  mute_create (fun _ _ => mute_createHelper _ _ _) _ _ _ path

/-- `create_file` says nothing. -/
theorem mute_createFile (path : List UInt8) : Mute (createFile path) :=
  mute_create (fun _ _ => mute_createHelper _ _ _) _ _ _ path

/-- `init_fs` says nothing of its own. -/
theorem mute_initFs : Mute initFs := by
  refine (mute_liftM _).seq fun opened => ?_
  split
  · exact (mute_eprint _).seq fun _ => mute_liftM _
  refine (mute_liftM _).seq fun _ => (mute_writing _ _).seq fun stored => ?_
  split
  · exact (mute_liftM _).seq fun _ => (mute_eprint _).seq fun _ => mute_liftM _
  refine (mute_liftM _).seq fun _ => (mute_writing _ _).seq fun stored => ?_
  split
  · exact (mute_eprint _).seq fun _ => (mute_liftM _).seq fun _ => (mute_liftM _).seq fun _ =>
      mute_liftM _
  · exact (mute_createHelper _ _ _).seq fun _ => (mute_liftM _).seq fun _ => mute_liftM _

/-- `read_fs` says nothing of its own. -/
theorem mute_readFs : Mute readFs := by
  have hopen : Mute openChecked := by
    refine (mute_liftM _).seq fun opened => ?_
    split
    · exact (mute_eprint _).seq fun _ => mute_liftM _
    refine (mute_reading _ _).seq fun read => (mute_liftM _).seq fun _ => ?_
    dsimp only
    split
    · exact (mute_eprint _).seq fun _ => (mute_liftM _).seq fun _ => (mute_liftM _).seq fun _ =>
        mute_liftM _
    · exact mute_pure _
  exact hopen.seq fun _ => mute_liftM _

/-- `close_file` says nothing. -/
theorem mute_closeFile (fd : Nat) : Mute (closeFile fd) := by
  have hfree : ∀ dt, Mute (freeDescriptor dt fd) := by
    intro dt
    refine (mute_liftM _).seq fun reserved => ?_
    split
    · exact (mute_eprint _).seq fun _ => mute_pure _
    · exact mute_pure _
  exact mute_enterTable.seq fun entered => (mute_liftM _).seq fun _ => (hfree _).seq fun dt =>
    (mute_storeTable _ _).seq fun _ => mute_liftM _

/-- `lseek_pos` says nothing. -/
theorem mute_lseekPos (fd pos : Nat) : Mute (lseekPos fd pos) := by
  refine mute_enterTable.seq fun entered => (mute_liftM _).seq fun _ =>
    (mute_liftM _).seq fun reserved => ?_
  split
  · exact (mute_eprint _).seq fun _ => (mute_liftM _).seq fun _ => mute_liftM _
  split
  · exact (mute_eprint _).seq fun _ => (mute_liftM _).seq fun _ => mute_liftM _
  · exact (mute_storeTable _ _).seq fun _ => mute_liftM _

/-! ### Commands with a result -/

/-- What `open` says. -/
def openedText : Option Nat → List Output
  | some fd => [.stdout "opened fd: %d\n" [.number fd]]
  | none => []

/-- What `write` says. -/
def writtenText : Option Nat → List Output
  | some n => [.stdout "Total written: %d\n" [.number n]]
  | none => []

/-- What `read_file` says. -/
def readText : Option (List UInt8) → List Output
  | some got => [.stdout "Total readed: %d\n" [.number got.length]]
  | none => []

/-- A complaint that a branch may make before the rest. -/
theorem says_optional {c : Prop} [Decidable c] {p : Printing Unit} {q : Printing α}
    {g : α → List Output} (hp : Mute p) (hq : Says q out g) :
    Says (if c then p >>= fun _ => q else q) out g := by
  split
  · exact hp.bind fun _ => hq
  · exact hq

/-- An exit may say anything. -/
theorem says_exitFailure {g : α → List Output} :
    Says (liftM (exitFailure : ExtProg α) : Printing α) out g := Prog.says_halt _ _

/-- A program that says nothing and returns nothing. -/
theorem says_none {p : ExtProg Unit} {β : Type} {g : Option β → List Output} (hg : g none = []) :
    Says (liftM p >>= fun _ => pure none : Printing (Option β)) out fun r => out ++ g r :=
  (mute_liftM p).bind fun _ => Prog.says_pure (by rw [hg, List.append_nil])

/-- `reserve_descriptor` says nothing. -/
theorem mute_reserveDescriptor (dt : DescriptorsTable) (inodeId : Nat) :
    Mute (reserveDescriptor dt inodeId) := by
  unfold reserveDescriptor
  split
  · exact mute_pure _
  split
  · exact (mute_eprint _).seq fun _ => mute_pure _
  · exact (mute_eprint _).seq fun _ => mute_pure _

/-- **`open_file`** says which descriptor it returns. -/
theorem says_openFile (path : List UInt8) :
    Says (openFile path) out fun r => out ++ openedText r := by
  refine mute_enter.bind fun sb => (mute_splitPath _).bind fun parts => ?_
  rcases parts with _ | ⟨parentPath, filename⟩
  · exact (mute_eprint _).bind fun _ => says_none rfl
  refine (mute_getInodeIdOfDir _ _).bind fun i => ?_
  split
  · exact (mute_eprint _).bind fun _ => says_none rfl
  refine (mute_reading _ _).bind fun read =>
    says_optional ((mute_eprint _).seq fun _ => mute_liftM _) ?_
  refine (mute_liftM _).bind fun _ => ?_
  dsimp only
  split
  · exact (mute_eprint _).bind fun _ => says_none rfl
  refine (mute_reading _ _).bind fun read => ?_
  rcases read with _ | dt
  · exact (mute_eprint _).bind fun _ => (mute_liftM _).bind fun _ => says_exitFailure
  refine ((mute_lookup _ _ _).seq fun _ => mute_pure _).bind fun i => ?_
  split
  · exact (mute_eprint _).bind fun _ => (mute_liftM _).bind fun _ => says_none rfl
  refine (mute_liftM _).bind fun _ => (mute_reserveDescriptor _ _).bind fun reserved => ?_
  rcases reserved with _ | ⟨newFd, dt⟩
  · exact (mute_eprint _).bind fun _ => (mute_liftM _).bind fun _ => says_none rfl
  refine (mute_writing _ _).bind fun stored => ?_
  split
  · exact (mute_eprint _).bind fun _ => (mute_liftM _).bind fun _ => (mute_liftM _).bind fun _ =>
      says_exitFailure
  · exact (says_printf _ _).bind fun _ => (mute_liftM _).bind fun _ => (mute_liftM _).bind fun _ =>
      Prog.says_pure rfl

/-! ### The loops -/

/-- The epilogue of a write says nothing. -/
theorem mute_storeAll (fd : Nat) (s : WriteState) : Mute (storeAll fd s) := by
  refine (mute_liftM _).seq fun _ => (mute_writing _ _).seq fun stored => ?_
  split
  · exact (mute_eprint _).seq fun _ => (mute_liftM _).seq fun _ => mute_liftM _
  refine (mute_liftM _).seq fun _ => (mute_writing _ _).seq fun stored => ?_
  split
  · exact (mute_eprint _).seq fun _ => mute_liftM _
  refine (mute_liftM _).seq fun _ => (mute_writing _ _).seq fun stored => ?_
  split
  · exact (mute_eprint _).seq fun _ => (mute_liftM _).seq fun _ => mute_liftM _
  · exact mute_liftM _

/-- Filling a block says nothing. -/
theorem mute_fillBlock (s : WriteState) (block : Block) : Mute (fillBlock s block) := by
  refine (mute_liftM _).seq fun _ => ?_
  dsimp only
  generalize (if s.needToWriteSize < _ then _ else _ : Nat) = sizeToWrite
  split
  · exact mute_liftM _
  refine (mute_writeBlock _ _ _).seq fun stored => ?_
  split
  · exact (mute_eprint _).seq fun _ => (mute_liftM _).seq fun _ => (mute_liftM _).seq fun _ =>
      (mute_liftM _).seq fun _ => mute_pure _
  · exact (mute_liftM _).seq fun _ => mute_pure _

/-- Appending a block says nothing. -/
theorem mute_appendBlock (s : WriteState) (inodeId newBlockId : Nat) :
    Mute (appendBlock s inodeId newBlockId) := by
  refine (mute_liftM _).seq fun _ => (mute_liftM _).seq fun _ =>
    (mute_writing _ _).seq fun stored => ?_
  dsimp only
  split
  · exact (mute_eprint _).seq fun _ => (mute_liftM _).seq fun _ => (mute_liftM _).seq fun _ =>
      mute_pure _
  · exact mute_pure _

/-- The loop of a write says nothing. -/
theorem mute_writeLoop (fd inodeId size fuel : Nat) (s : WriteState) :
    Mute (writeLoop fd inodeId size fuel s) := by
  induction fuel generalizing s with
  | zero => exact mute_pure _
  | succ fuel ih =>
    unfold writeLoop
    split
    · exact mute_pure _
    refine (mute_liftM _).seq ?_
    intro _
    refine (mute_liftM _).seq ?_
    intro _
    dsimp only
    split
    · exact mute_liftM _
    split
    · refine (mute_liftM _).seq fun blockId => (mute_readBlock _ _ _).seq fun read => ?_
      rcases read with _ | block
      · exact (mute_eprint _).seq fun _ => (mute_liftM _).seq fun _ => (mute_liftM _).seq fun _ =>
          mute_pure _
      · exact (mute_fillBlock _ _).seq fun s => ih s
    split
    · exact (mute_eprint _).seq fun _ => (mute_storeAll _ _).seq fun _ => mute_pure _
    split
    · exact (mute_eprint _).seq fun _ => (mute_storeAll _ _).seq fun _ => mute_pure _
    · exact (mute_appendBlock _ _ _).seq fun r => (mute_fillBlock _ _).seq fun s => ih s

/-- **`write_to_file`** says how much it has written. -/
theorem says_writeToFile (fd : Nat) (data : List UInt8) :
    Says (writeToFile fd data) out fun r => out ++ writtenText r := by
  refine mute_enter.bind fun sb => (mute_reading _ _).bind fun read => ?_
  rcases read with _ | dt
  · exact (mute_eprint _).bind fun _ => (mute_liftM _).bind fun _ => says_exitFailure
  refine (mute_liftM _).bind fun _ => (mute_liftM _).bind fun reserved => ?_
  split
  · exact (mute_eprint _).bind fun _ => says_none rfl
  refine (mute_liftM _).bind fun fdPosition => (mute_liftM _).bind fun inodeId =>
    (mute_reading _ _).bind fun read => ?_
  rcases read with _ | inode
  · exact (mute_eprint _).bind fun _ => (mute_liftM _).bind fun _ => says_exitFailure
  · exact (mute_writeLoop _ _ _ _ _).bind fun s => (mute_storeAll _ _).bind fun _ =>
      (says_printf _ _).bind fun _ => Prog.says_pure rfl

/-- The loop of a read says nothing. -/
theorem mute_readLoop (sb : Superblock) (inode : Inode) (size capacity fuel : Nat)
    (s : ReadState) : Mute (readLoop sb inode size capacity fuel s) := by
  induction fuel generalizing s with
  | zero => exact mute_pure _
  | succ fuel ih =>
    unfold readLoop
    split
    · exact mute_pure _
    refine (mute_liftM _).seq ?_
    intro _
    refine (mute_liftM _).seq ?_
    intro _
    dsimp only
    split
    · exact mute_liftM _
    split
    · exact mute_pure _
    refine (mute_liftM _).seq fun blockId => (mute_readBlock _ _ _).seq fun read => ?_
    rcases read with _ | block
    · exact (mute_eprint _).seq fun _ => (mute_liftM _).seq fun _ => (mute_liftM _).seq fun _ =>
        mute_pure _
    dsimp only
    generalize (block.info.dataSize + 2 ^ 32 - _) % 2 ^ 32 = remainRead
    split
    · exact (mute_liftM _).seq fun _ => mute_pure _
    · generalize (if s.needToRead < remainRead then s.needToRead else remainRead) = sizeToRead
      split
      · exact Prog.mute_halt _
      · exact (mute_liftM _).seq fun _ => ih _

/-- **`read_file`** says how much it has read. -/
theorem says_readFile (fd size capacity : Nat) :
    Says (readFile fd size capacity) out fun r => out ++ readText r := by
  refine mute_enter.bind fun sb => (mute_reading _ _).bind fun read => ?_
  rcases read with _ | dt
  · exact (mute_eprint _).bind fun _ => (mute_liftM _).bind fun _ => says_exitFailure
  refine (mute_liftM _).bind fun _ => (mute_liftM _).bind fun reserved => ?_
  split
  · exact (mute_eprint _).bind fun _ => says_none rfl
  refine (mute_liftM _).bind fun fdPosition => (mute_liftM _).bind fun inodeId =>
    (mute_reading _ _).bind fun read => ?_
  rcases read with _ | inode
  · exact (mute_eprint _).bind fun _ => (mute_liftM _).bind fun _ => says_exitFailure
  have hend : ∀ got, Says (do
      release .descriptorsTable
      leaveInode
      printf "Total readed: %d\n" [.number got.length]
      return some got : Printing (Option (List UInt8))) out fun r => out ++ readText r := fun got =>
    (mute_liftM _).bind fun _ => (mute_liftM _).bind fun _ => (says_printf _ _).bind fun _ =>
      Prog.says_pure rfl
  refine (mute_readLoop _ _ _ _ _ _).bind fun s => (mute_writing _ _).bind fun stored => ?_
  dsimp only
  split
  · exact (mute_eprint _).bind fun _ => (mute_liftM _).bind fun _ => (mute_liftM _).bind fun _ =>
      hend _
  · exact hend _

end Printing

end MiniExt
