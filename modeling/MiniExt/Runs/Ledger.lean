import MiniExt.Client
import MiniExt.Lib.Monitor

namespace MiniExt

open Lib

/-!
# The objects of a command

A command acquires its objects one by one and releases them by hand.  The ledger watches: a
use or a release needs a live object.  The answers of the host may be anything here, and for
each part of a command this file finds which answers the ledger can be content with.

* `ledger` — the live objects, the last one first;
* `Demand` — what the answers of reads and writes have to be;
* `Tracks` — on a part of a program the ledger comes to a demand, and ends in a known state.
-/

/-! ### The ledger and the demands -/

/-- The ledger of a command: which objects are live. -/
def ledger : Monitor host (List Handle) where
  accepts
    | .use h, _, live => h ∈ live
    | .release h, _, live => h ∈ live
    | _, _, _ => True
  next
    | .acquire h, _, live => h :: live
    | .release h, _, live => live.erase h
    | _, _, live => live

/-- What is asked of the answers of reads and writes; of the others nothing is. -/
structure Demand where
  superblockRead : Option Superblock → Prop := fun _ => True
  inodeRead : Option Inode → Prop := fun _ => True
  blockRead : ReadBlockResult → Prop := fun _ => True
  blockWrite : WriteBlockResult → Prop := fun _ => True
  inodeWrite : Bool → Prop := fun _ => True
  superblockWrite : Bool → Prop := fun _ => True

/-- No demand at all. -/
def anything : Demand where

/-- The demand on an answer. -/
def Demand.accepts (D : Demand) : Demands host
  | .readSuperBlock, sb => D.superblockRead sb
  | .readInode _ _, inode => D.inodeRead inode
  | .readBlock _ _, r => D.blockRead r
  | .writeBlock _ _, r => D.blockWrite r
  | .writeInode _ _, stored => D.inodeWrite stored
  | .writeSuperBlock _, stored => D.superblockWrite stored
  | _, _ => True

/-- On `p` the ledger comes to the demand `D`; `live` says how it ends. -/
abbrev Tracks {α : Type} (D : Demand) (p : ExtProg α) (start : List Handle)
    (live : α → List Handle) : Prop :=
  Reduces ledger D.accepts p start live

/-- The objects after a read: what was read is live. -/
def acquired {α : Type} (h : Handle) (live : List Handle) (read : Option α) : List Handle :=
  if read.isSome then h :: live else live

variable {α : Type} {D : Demand} {live : List Handle}

/-! ### Single calls -/

/-- A live object is used, and stays live. -/
theorem tracks_use {h : Handle} (hlive : h ∈ live) : Tracks D (use h) live fun _ => live :=
  reduces_perform (I := host) (c := .use h) fun _ => iff_of_true hlive trivial

/-- A live object is released. -/
theorem tracks_release {h : Handle} (hlive : h ∈ live) :
    Tracks D (release h) live fun _ => live.erase h :=
  reduces_perform (I := host) (c := .release h) fun _ => iff_of_true hlive trivial

/-- An object is acquired. -/
theorem tracks_acquire (h : Handle) : Tracks D (acquire h) live fun _ => h :: live :=
  reduces_perform (I := host) (c := .acquire h) fun _ => Iff.rfl

/-- A computed outcome has no objects. -/
theorem tracks_ofOutcome (o : Outcome Stop α) : Tracks D (Prog.ofOutcome o) live fun _ => live := by
  cases o with
  | done a => exact reduces_pure rfl
  | halted e => exact reduces_halt

/-- An access to an array has no objects. -/
theorem tracks_index (xs : List α) (i : Nat) : Tracks D (index xs i) live fun _ => live := by
  unfold index
  split
  · exact reduces_pure rfl
  · exact reduces_halt

/-- What follows an access to an array has to pass for the entry that is there. -/
theorem passes_index {ω : Type} {env : Environment host ω} {w : ω} (xs : List α) (i : Nat)
    (Q : α → ω → List Handle → Prop) :
    (index xs i).Passes ledger env w live Q ↔ ∀ x, xs[i]? = some x → Q x w live := by
  unfold index
  rcases xs[i]? with _ | x
  · refine iff_of_true trivial ?_
    rintro x ⟨⟩
  · constructor
    · rintro hQ x' ⟨⟩
      exact hQ
    · intro hQ
      exact hQ x rfl

/-- A use of an object that is not live is rejected. -/
theorem rejects_use {ω : Type} {env : Environment host ω} {Q : α → ω → List Handle → Prop}
    {h : Handle} {f : Unit → ExtProg α} (hdead : h ∉ live) :
    Rejects ledger env (use h >>= f) live Q :=
  ⟨fun _ hpasses => hdead hpasses.1⟩

/-- A release of an object that is not live is rejected. -/
theorem rejects_release {ω : Type} {env : Environment host ω} {Q : α → ω → List Handle → Prop}
    {h : Handle} {f : Unit → ExtProg α} (hdead : h ∉ live) :
    Rejects ledger env (release h >>= f) live Q :=
  ⟨fun _ hpasses => hdead hpasses.1⟩

/-- What is rejected after a release is rejected. -/
theorem Lib.Rejects.after_release {ω : Type} {env : Environment host ω}
    {Q : α → ω → List Handle → Prop} {h : Handle} {f : Unit → ExtProg α}
    (hf : Rejects ledger env (f ()) (live.erase h) Q) :
    Rejects ledger env (release h >>= f) live Q :=
  ⟨fun _ hpasses => hf.not_passes _ hpasses.2⟩

/-- What is rejected after a use is rejected. -/
theorem Lib.Rejects.after_use {ω : Type} {env : Environment host ω}
    {Q : α → ω → List Handle → Prop} {h : Handle} {f : Unit → ExtProg α}
    (hf : Rejects ledger env (f ()) live Q) : Rejects ledger env (use h >>= f) live Q :=
  ⟨fun _ hpasses => hf.not_passes _ hpasses.2⟩

/-- What is rejected after an acquisition is rejected. -/
theorem Lib.Rejects.after_acquire {ω : Type} {env : Environment host ω}
    {Q : α → ω → List Handle → Prop} {h : Handle} {f : Unit → ExtProg α}
    (hf : Rejects ledger env (f ()) (h :: live) Q) : Rejects ledger env (acquire h >>= f) live Q :=
  ⟨fun _ hpasses => hf.not_passes _ hpasses.2⟩

/-! ### Codecs -/

/-- A call the ledger has no say in asks for what the demand says of its answer. -/
theorem requires_ask (c : HostCall) (haccepts : ∀ a, ledger.accepts c a live) :
    Requires ledger D.accepts (ask c) live (D.accepts c) fun a => ledger.next c a live :=
  ⟨fun _ _ _ => and_congr_left' (iff_of_true (haccepts _) trivial),
    fun _ _ _ => (and_iff_right trivial).symm⟩

/-- A use before it changes nothing. -/
theorem Lib.Requires.after_use {p : ExtProg α} {R : α → Prop} {e : α → List Handle} {h : Handle}
    (hlive : h ∈ live) (hp : Requires ledger D.accepts p live R e) :
    Requires ledger D.accepts (do
      use h
      p) live R e :=
  ⟨fun env _ Q => and_congr (iff_of_true hlive trivial) (hp.passes env _ Q),
    fun env _ Q => and_congr Iff.rfl (hp.meets env _ Q)⟩

/-- A read: what was read becomes live. -/
theorem Lib.Requires.then_acquire {p : ExtProg (Option α)} {R : Option α → Prop} {h : Handle}
    (hp : Requires ledger D.accepts p live R fun _ => live) :
    Requires ledger D.accepts (do
      let r ← p
      if r.isSome then acquire h
      return r) live R (acquired h live) := by
  constructor
  · intro ω env w Q
    rw [Prog.passes_bind, hp.passes, Prog.meets_bind]
    refine Prog.meets_congr p.yields_true fun r w _ => ?_
    cases r with
    | none => exact Iff.rfl
    | some a => exact Iff.rfl
  · intro ω env w Q
    rw [Prog.meets_bind, hp.meets, Prog.meets_bind]
    refine Prog.meets_congr p.yields_true fun r w _ => ?_
    cases r with
    | none => exact Iff.rfl
    | some a => exact and_left_comm

section Records

variable (himage : Handle.image ∈ live) (hsb : Handle.superblock ∈ live)

include himage

/-- `read_super_block` asks for its result, and acquires what it read. -/
theorem requires_readSuperBlock :
    Requires ledger D.accepts readSuperBlock live D.superblockRead (acquired .superblock live) :=
  (requires_ask .readSuperBlock fun _ => trivial).then_acquire.after_use himage

include hsb

/-- `read_inode` asks for its result, and acquires what it read. -/
theorem requires_readInode (h : Handle) (sb : Superblock) (i : Nat) :
    Requires ledger D.accepts (readInode h sb i) live D.inodeRead (acquired h live) :=
  ((requires_ask (.readInode sb.fsInfo i) fun _ => trivial).then_acquire.after_use
    hsb).after_use himage

/-- `read_descriptors_table` acquires what it read. -/
theorem tracks_readDescriptorsTable (sb : Superblock) :
    Tracks D (readDescriptorsTable sb) live (acquired .descriptorsTable live) :=
  (((requires_ask (.readDescriptorsTable sb.fsInfo) fun _ => trivial).then_acquire.after_use
    hsb).after_use himage).reduces fun _ => trivial

/-- `write_super_block` asks for its result. -/
theorem requires_writeSuperBlock (sb : Superblock) :
    Requires ledger D.accepts (writeSuperBlock sb) live D.superblockWrite fun _ => live :=
  ((requires_ask (.writeSuperBlock sb) fun _ => trivial).after_use hsb).after_use himage

/-- `write_inode` asks for its result. -/
theorem requires_writeInode {h : Handle} (hlive : h ∈ live) (sb : Superblock) (inode : Inode) :
    Requires ledger D.accepts (writeInode h sb inode) live D.inodeWrite fun _ => live :=
  (((requires_ask (.writeInode sb.fsInfo inode) fun _ => trivial).after_use hlive).after_use
    hsb).after_use himage

/-- `write_descriptor_table` uses the table. -/
theorem tracks_writeDescriptorTable (htable : Handle.descriptorsTable ∈ live) (sb : Superblock)
    (dt : DescriptorsTable) : Tracks D (writeDescriptorTable sb dt) live fun _ => live :=
  ((((requires_ask (.writeDescriptorTable sb.fsInfo dt) fun _ => trivial).after_use
    htable).after_use hsb).after_use himage).reduces fun _ => trivial

end Records

/-! ### Epilogues and prologues -/

/-- What was acquired last is released. -/
theorem tracks_release_head (h : Handle) : Tracks D (release h) (h :: live) fun _ => live := by
  have htracks := tracks_release (D := D) (List.mem_cons_self : h ∈ h :: live)
  rwa [List.erase_cons_head] at htracks

/-- The second of two objects is released. -/
theorem tracks_release_second {h k : Handle} (hne : k ≠ h) :
    Tracks D (release h) (k :: h :: live) fun _ => k :: live := by
  have htracks := tracks_release (D := D)
    (List.mem_cons_of_mem k List.mem_cons_self : h ∈ k :: h :: live)
  rwa [List.erase_cons_tail (by simpa using hne), List.erase_cons_head] at htracks

/-- Leaving a command releases the superblock and the image. -/
theorem tracks_leave : Tracks D leave [.superblock, .image] fun _ => [] :=
  (tracks_release_head _).bind fun _ => tracks_release_head _

/-- Leaving with an inode releases that too. -/
theorem tracks_leaveInode : Tracks D leaveInode [.inode, .superblock, .image] fun _ => [] :=
  (tracks_release_head _).bind fun _ => tracks_leave

/-- Leaving with the table releases that too. -/
theorem tracks_leaveTable :
    Tracks D leaveTable [.descriptorsTable, .superblock, .image] fun _ => [] :=
  (tracks_release_head _).bind fun _ => tracks_leave

/-- `exit` after some part of an epilogue. -/
theorem tracks_exitFailure {e : α → List Handle} : Tracks D (exitFailure : ExtProg α) live e :=
  reduces_halt

/-- An exit after the releases ends the ledger as one likes. -/
theorem tracks_exitReleased {e : Unit → List Handle} (hinode : Handle.inode ∈ live)
    (hsb : Handle.superblock ∈ live.erase .inode)
    (himage : Handle.image ∈ (live.erase .inode).erase .superblock) :
    Tracks D exitReleased live e :=
  (tracks_release hinode).bind fun _ => ((tracks_release hsb).bind fun _ =>
    tracks_release himage).bind fun _ => tracks_exitFailure

/-- It does not return. -/
theorem yields_exitReleased : exitReleased.Yields fun _ => False :=
  Prog.Yields.bind fun _ => Prog.Yields.bind fun _ => trivial

/-- What stands after `exitReleased` does not matter. -/
theorem tracks_exitReleased_bind {k : Unit → ExtProg α} {e : α → List Handle}
    (hinode : Handle.inode ∈ live) (hsb : Handle.superblock ∈ live.erase .inode)
    (himage : Handle.image ∈ (live.erase .inode).erase .superblock) :
    Tracks D (exitReleased >>= k) live e :=
  (tracks_exitReleased (e := fun _ => []) hinode hsb himage).bind_of_never yields_exitReleased

/-! ### Blocks -/

/-- The call of `read_block`, before its result is looked at. -/
def readBlockCall (sb : Superblock) (blockId : Nat) : ExtProg ReadBlockResult := do
  use .image
  use .superblock
  askReadBlock sb.fsInfo blockId

/-- The call of `read_block` asks for its result. -/
theorem requires_readBlockCall (himage : Handle.image ∈ live) (hsb : Handle.superblock ∈ live)
    (sb : Superblock) (b : Nat) :
    Requires ledger D.accepts (readBlockCall sb b) live D.blockRead fun _ => live :=
  ((requires_ask (.readBlock sb.fsInfo b) fun _ => trivial).after_use hsb).after_use himage

/-- `read_block` and what follows, by the result of the call. -/
theorem readBlock_bind (h : Handle) (sb : Superblock) (b : Nat) (f : Option Block → ExtProg α) :
    readBlock h sb b >>= f = (readBlockCall sb b >>= fun r =>
      match r with
      | .read block => acquire h >>= fun _ => f (some block)
      | .failed => f none
      | .mixed => halt .memoryError
      | .destructed => release h >>= fun _ => halt .memoryError) := by
  refine congrArg (Prog.call (I := host) (HostCall.use .image)) (funext fun _ => ?_)
  refine congrArg (Prog.call (I := host) (HostCall.use .superblock)) (funext fun _ => ?_)
  refine congrArg (Prog.call (I := host) (HostCall.readBlock sb.fsInfo b)) (funext fun r => ?_)
  cases r <;> rfl

/-- All that a `read_block` asks for is that it does not free a path twice. -/
theorem tracks_readBlock (hread : ∀ r, D.blockRead r ↔ r ≠ .destructed) {h : Handle}
    (himage : Handle.image ∈ live) (hsb : Handle.superblock ∈ live) (hfresh : h ∉ live)
    (sb : Superblock) (b : Nat) : Tracks D (readBlock h sb b) live (acquired h live) := by
  refine (tracks_use himage).bind fun _ => (tracks_use hsb).bind fun _ =>
    (requires_ask (.readBlock sb.fsInfo b) fun _ => trivial).bind ?_ ?_
  · intro r hr
    cases r with
    | read block => exact (tracks_acquire h).bind fun _ => reduces_pure rfl
    | failed => exact reduces_pure rfl
    | mixed => exact reduces_halt
    | destructed => exact absurd rfl ((hread _).mp hr)
  · intro ω env Q r hr
    obtain rfl : r = .destructed := not_not.mp (mt (hread r).mpr hr)
    exact rejects_release hfresh

/-- The call of `write_block`, before its result is looked at. -/
def writeBlockCall (h : Handle) (sb : Superblock) (block : Block) : ExtProg WriteBlockResult := do
  use .image
  use .superblock
  use h
  askWriteBlock sb.fsInfo block

/-- The call of `write_block` asks for its result, of a live block. -/
theorem requires_writeBlockCall {h : Handle} (himage : Handle.image ∈ live)
    (hsb : Handle.superblock ∈ live) (hlive : h ∈ live) (sb : Superblock) (block : Block) :
    Requires ledger D.accepts (writeBlockCall h sb block) live D.blockWrite fun _ => live :=
  (((requires_ask (.writeBlock sb.fsInfo block) fun _ => trivial).after_use hlive).after_use
    hsb).after_use himage

/-- `write_block` and what follows: after a failed record the block is released twice already. -/
theorem writeBlock_bind (h : Handle) (sb : Superblock) (block : Block) (f : Bool → ExtProg α) :
    writeBlock h sb block >>= f = (writeBlockCall h sb block >>= fun r =>
      match r with
      | .stored => f true
      | .failed => f false
      | .rejected => f false
      | .destructed => release h >>= fun _ => release h >>= fun _ => halt .memoryError) := by
  refine congrArg (Prog.call (I := host) (HostCall.use .image)) (funext fun _ => ?_)
  refine congrArg (Prog.call (I := host) (HostCall.use .superblock)) (funext fun _ => ?_)
  refine congrArg (Prog.call (I := host) (HostCall.use h)) (funext fun _ => ?_)
  refine congrArg (Prog.call (I := host) (HostCall.writeBlock sb.fsInfo block)) (funext fun r => ?_)
  cases r <;> rfl

/-- The second of the two releases objects. -/
theorem rejects_released {ω : Type} {env : Environment host ω} {Q : α → ω → List Handle → Prop}
    {h : Handle} {p : ExtProg α} (hfresh : h ∉ live) :
    Rejects ledger env (release h >>= fun _ => release h >>= fun _ => p) (h :: live) Q := by
  refine .after_release (rejects_release ?_)
  rwa [List.erase_cons_head]

/-! ### What every command asks for -/

/-- No `read_block` fails in the middle of its records. -/
def recordsRead : Demand where
  blockRead := (· ≠ .destructed)

/-- What every command asks for: its superblock can be read, and no block is lost in the middle of
    its records. -/
def usual : Demand where
  superblockRead := fun sb => sb.isSome
  blockRead := (· ≠ .destructed)
  blockWrite := (· ≠ .destructed)

/-- The image is live when it opens. -/
theorem tracks_openImage (truncate : Bool) :
    Tracks D (openImage truncate) [] fun opened => if opened then [.image] else [] := by
  refine ((requires_ask (.openImage truncate) fun _ => trivial).reduces fun _ => trivial).bind
    fun opened => ?_
  cases opened with
  | false => exact reduces_pure rfl
  | true => exact (tracks_acquire _).bind fun _ => reduces_pure rfl

/-- A command that goes on has the superblock and the image. -/
theorem tracks_openFs : Tracks usual openFs [] fun _ => [.superblock, .image] := by
  refine (tracks_openImage false).bind fun opened => ?_
  cases opened with
  | false => exact tracks_exitFailure
  | true =>
    refine (requires_readSuperBlock (List.mem_singleton.mpr rfl)).bind ?_ ?_
    · intro sb hsome
      obtain ⟨sb, rfl⟩ := Option.isSome_iff_exists.mp hsome
      refine (tracks_use List.mem_cons_self).bind fun _ => ?_
      dsimp only
      split
      · exact (tracks_release_head _).bind fun _ => (tracks_release_head _).bind fun _ =>
          tracks_exitFailure
      · exact reduces_pure rfl
    · -- the superblock was not read, and its magic number is looked at
      intro ω env Q sb hnone
      obtain rfl : sb = none := Option.not_isSome_iff_eq_none.mp hnone
      exact rejects_use (by decide)

/-- So it starts with them. -/
theorem tracks_enter : Tracks usual enter [] fun _ => [.superblock, .image] := by
  refine tracks_openFs.bind fun sb => (tracks_index _ _).bind fun reserved => ?_
  split
  · exact (tracks_release_head _).bind fun _ => (tracks_release_head _).bind fun _ =>
      tracks_exitFailure
  · exact reduces_pure rfl

/-- Or with the table as well. -/
theorem tracks_enterTable :
    Tracks usual enterTable [] fun _ => [.descriptorsTable, .superblock, .image] := by
  refine tracks_enter.bind fun sb => (tracks_readDescriptorsTable (by decide) (by decide) sb).bind
    fun table => ?_
  cases table with
  | none => exact tracks_leave.bind fun _ => tracks_exitFailure
  | some dt => exact reduces_pure rfl

/-- The table is stored and stays live. -/
theorem tracks_storeTable (sb : Superblock) (dt : DescriptorsTable) :
    Tracks D (storeTable sb dt) [.descriptorsTable, .superblock, .image]
      fun _ => [.descriptorsTable, .superblock, .image] := by
  refine (tracks_writeDescriptorTable (by decide) (by decide) (by decide) sb dt).bind
    fun stored => ?_
  cases stored with
  | false => exact tracks_leaveTable.bind fun _ => tracks_exitFailure
  | true => exact reduces_pure rfl

/-! ### The path walk -/

/-- On the walk no `read_block` may return `-1`; an inode that is not read ends it. -/
def blocksRead : Demand where
  blockRead := fun r => r ≠ .failed ∧ r ≠ .destructed

/-- **The path walk** releases its blocks on the way, when every one of them can be read. -/
theorem tracks_getInodeIdOfDirRec (sb : Superblock) (fuel depth : Nat) (path : List UInt8)
    (current : Nat) (himage : Handle.image ∈ live) (hsb : Handle.superblock ∈ live)
    (hfresh : ∀ k, depth ≤ k → Handle.walkBlock k ∉ live) :
    Tracks blocksRead (getInodeIdOfDirRec sb fuel depth path current) live fun _ => live := by
  induction fuel generalizing depth path current live with
  | zero => exact reduces_halt
  | succ fuel ih =>
    refine ((requires_readInode himage hsb _ _ _).reduces fun _ => trivial).bind fun read => ?_
    cases read with
    | none => exact reduces_pure rfl
    | some inode =>
      show Tracks blocksRead _ (.walkInode depth :: live) _
      refine (tracks_use List.mem_cons_self).bind fun _ => ?_
      split
      · exact (tracks_release_head _).bind fun _ => reduces_pure rfl
      refine (tracks_ofOutcome _).bind fun parsed => ?_
      obtain ⟨name, rest⟩ := parsed
      dsimp only
      split
      · exact (tracks_release_head _).bind fun _ => reduces_pure rfl
      have hdead : Handle.walkBlock depth ∉ Handle.walkInode depth :: live := by
        simpa using hfresh depth (Nat.le_refl depth)
      refine (tracks_index _ _).bind fun b => ?_
      rw [readBlock_bind]
      refine (requires_readBlockCall (List.mem_cons_of_mem _ himage) (List.mem_cons_of_mem _ hsb)
        _ _).bind ?_ ?_
      · intro r hr
        cases r with
        | failed => exact absurd rfl hr.1
        | destructed => exact absurd rfl hr.2
        | mixed => exact reduces_halt
        | read block =>
          refine (tracks_acquire _).bind fun _ => (tracks_use List.mem_cons_self).bind fun _ =>
            (tracks_ofOutcome _).bind fun found => ?_
          split
          · exact (tracks_release_head _).bind fun _ => (tracks_release_head _).bind fun _ =>
              reduces_pure rfl
          · exact (tracks_release_head _).bind fun _ => (tracks_release_head _).bind fun _ =>
              reduces_pure rfl
          · refine (ih _ _ _ ?_ ?_ ?_).bind fun _ => (tracks_release_head _).bind fun _ =>
              (tracks_release_head _).bind fun _ => reduces_pure rfl
            · exact List.mem_cons_of_mem _ (List.mem_cons_of_mem _ himage)
            · exact List.mem_cons_of_mem _ (List.mem_cons_of_mem _ hsb)
            · -- deeper objects are still to be acquired
              intro k hk hmem
              rcases List.mem_cons.mp hmem with heq | hmem
              · cases heq
                omega
              · rcases List.mem_cons.mp hmem with heq | hmem
                · cases heq
                · exact hfresh k (by omega) hmem
      · intro ω env Q r hr
        cases r with
        | read block => exact absurd ⟨ReadBlockResult.noConfusion, ReadBlockResult.noConfusion⟩ hr
        | mixed => exact absurd ⟨ReadBlockResult.noConfusion, ReadBlockResult.noConfusion⟩ hr
        -- the block was not read, and its records are looked at
        | failed => exact rejects_use hdead
        -- a path was freed twice
        | destructed => exact rejects_release hdead

/-- `get_inode_id_of_dir` releases everything it acquires. -/
theorem tracks_getInodeIdOfDir (path : List UInt8) (sb : Superblock) :
    Tracks blocksRead (getInodeIdOfDir path sb) [.superblock, .image]
      fun _ => [.superblock, .image] := by
  refine (tracks_getInodeIdOfDirRec sb _ 0 path _ (by decide) (by decide) ?_).bind fun found => ?_
  · intro k _ hmem
    simp at hmem
  · split
    · exact reduces_pure rfl
    · exact reduces_pure rfl

end MiniExt
