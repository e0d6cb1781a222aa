import MiniExt.Client

namespace MiniExt

open Lib

/-!
# Runs of the primitives

What each primitive program does to a machine, one lemma each, so that no later proof looks
into the handler.  The lemmas are stated on machines written out field by field, with the
list of live objects as the one thing that changes from step to step.

* `run_use`, `run_acquire`, `run_release` — the handles;
* `run_readInode`, `run_writeBlock`, … — the codecs on an image of the default geometry;
* `Quiet` — programs that make no host write leave the image, the files and the log alone.
-/

variable {S : Store} {F : HostFiles} {L : List Handle} {T : List Store}

/-! ### Handles and control -/

/-- A call is what the host makes of it. -/
theorem run_ask (c : HostCall) (m : Machine) :
    (ask c).run hostHandler m = hostHandler c m :=
  Prog.run_perform hostHandler c m

/-- An object that is acquired is live. -/
@[simp] theorem run_acquire (h : Handle) :
    (acquire h).run hostHandler ⟨S, F, L, T⟩ = (.done (), ⟨S, F, h :: L, T⟩) :=
  (rfl)

/-- A live object may be used. -/
@[simp] theorem run_use {h : Handle} (hl : h ∈ L) :
    (use h).run hostHandler ⟨S, F, L, T⟩ = (.done (), ⟨S, F, L, T⟩) :=
  (run_ask (.use h) _).trans (if_pos hl)

/-- The use of one that is not live is a memory error. -/
theorem run_use_dead {h : Handle} (hl : h ∉ L) :
    (use h).run hostHandler ⟨S, F, L, T⟩ =
      (.halted .memoryError, ⟨S, F, L, T⟩) :=
  (run_ask (.use h) _).trans (if_neg hl)

/-- A live object may be released, and then it is not live any more. -/
@[simp] theorem run_release {h : Handle} (hl : h ∈ L) :
    (release h).run hostHandler ⟨S, F, L, T⟩ =
      (.done (), ⟨S, F, L.erase h, T⟩) :=
  (run_ask (.release h) _).trans (if_pos hl)

/-- `exit` ends the run. -/
@[simp] theorem run_exitFailure {α : Type} (m : Machine) :
    (exitFailure : ExtProg α).run hostHandler m = (.halted .exit, m) := (rfl)

/-- A halt ends the run. -/
@[simp] theorem run_halt' {α : Type} (e : Stop) (m : Machine) :
    (halt e : ExtProg α).run hostHandler m = (.halted e, m) := (rfl)

/-- An entry of an array is found. -/
@[simp] theorem run_index_some {α : Type} {xs : List α} {i : Nat} {x : α}
    (h : xs[i]? = some x) (m : Machine) :
    (index xs i).run hostHandler m = (.done x, m) := by
  simp [index, h]

/-- An access outside of an array is a memory error. -/
theorem run_index_none {α : Type} {xs : List α} {i : Nat} (h : xs[i]? = none) (m : Machine) :
    (index xs i).run hostHandler m = (.halted .memoryError, m) := by
  simp [index, h]

/-! ### Codecs -/

section Codecs

variable {B : Superblock} {h : Handle}

/-- The image opens. -/
@[simp] theorem run_openImage :
    (openImage false).run hostHandler ⟨S, F, L, T⟩ =
      (.done true, ⟨S, F, .image :: L, T⟩) := (rfl)

/-- The image opens, truncated. -/
theorem run_openImage_truncate :
    (openImage true).run hostHandler ⟨S, F, L, T⟩ =
      (.done true, ⟨.blank, F, .image :: L, T⟩) := (rfl)

/-- **`read_super_block`** finds the superblock. -/
theorem run_readSuperBlock (hsb : S.superblock = some B) (himg : .image ∈ L) :
    readSuperBlock.run hostHandler ⟨S, F, L, T⟩ =
      (.done (some B), ⟨S, F, .superblock :: L, T⟩) := by
  have hask : askReadSuperBlock.run hostHandler ⟨S, F, L, T⟩ =
      (.done (some B), ⟨S, F, L, T⟩) := by
    refine (run_ask .readSuperBlock _).trans ?_
    simp only [hostHandler, hsb]
    rfl
  simp [readSuperBlock, Prog.run_bind, himg, hask]

/-- **`write_super_block`** stores the superblock. -/
theorem run_writeSuperBlock (hg : B.fsInfo = defaultFsInfo) (himg : .image ∈ L)
    (hsb : .superblock ∈ L) :
    (writeSuperBlock B).run hostHandler ⟨S, F, L, T⟩ =
      (.done true, ⟨{ S with superblock := some B }, F, L,
        { S with superblock := some B } :: T⟩) := by
  simp only [writeSuperBlock, Prog.run_bind, run_use himg, run_use hsb, follow_done]
  exact (run_ask (.writeSuperBlock B) _).trans (if_pos hg)

/-- **`read_descriptors_table`** finds the table. -/
theorem run_readDescriptorsTable {dt : DescriptorsTable} (hdt : S.descriptorsTable = some dt)
    (hg : B.fsInfo = defaultFsInfo) (himg : .image ∈ L) (hsb : .superblock ∈ L) :
    (readDescriptorsTable B).run hostHandler ⟨S, F, L, T⟩ =
      (.done (some dt), ⟨S, F, .descriptorsTable :: L, T⟩) := by
  have hask : (askReadTable B.fsInfo).run hostHandler ⟨S, F, L, T⟩ =
      (.done (some dt), ⟨S, F, L, T⟩) := by
    refine (run_ask (.readDescriptorsTable B.fsInfo) _).trans ?_
    simp only [hostHandler, hdt, hg, if_true]
    rfl
  simp [readDescriptorsTable, Prog.run_bind, himg, hsb, hask]

/-- **`write_descriptor_table`** stores the table. -/
theorem run_writeDescriptorTable (dt : DescriptorsTable) (hg : B.fsInfo = defaultFsInfo)
    (himg : .image ∈ L) (hsb : .superblock ∈ L) (hdt : .descriptorsTable ∈ L) :
    (writeDescriptorTable B dt).run hostHandler ⟨S, F, L, T⟩ =
      (.done true, ⟨{ S with descriptorsTable := some dt }, F, L,
        { S with descriptorsTable := some dt } :: T⟩) := by
  simp only [writeDescriptorTable, Prog.run_bind, run_use himg, run_use hsb, run_use hdt,
    follow_done]
  exact (run_ask (.writeDescriptorTable B.fsInfo dt) _).trans (if_pos hg)

/-- **`read_inode`** finds an inode. -/
theorem run_readInode {i : Nat} {inode : Inode} (hi : S.inodes i = some inode)
    (hg : B.fsInfo = defaultFsInfo) (himg : .image ∈ L) (hsb : .superblock ∈ L) :
    (readInode h B i).run hostHandler ⟨S, F, L, T⟩ =
      (.done (some inode), ⟨S, F, h :: L, T⟩) := by
  have hask : (askReadInode B.fsInfo i).run hostHandler ⟨S, F, L, T⟩ =
      (.done (some inode), ⟨S, F, L, T⟩) := by
    refine (run_ask (.readInode B.fsInfo i) _).trans ?_
    simp only [hostHandler, hi, hg, if_true]
    rfl
  simp [readInode, Prog.run_bind, himg, hsb, hask]

/-- **`write_inode`** stores an inode. -/
theorem run_writeInode {inode : Inode} (hid : inode.id < 128)
    (hg : B.fsInfo = defaultFsInfo) (himg : .image ∈ L) (hsb : .superblock ∈ L)
    (hl : h ∈ L) :
    (writeInode h B inode).run hostHandler ⟨S, F, L, T⟩ =
      (.done true, ⟨S.setInode inode, F, L, S.setInode inode :: T⟩) := by
  simp only [writeInode, Prog.run_bind, run_use himg, run_use hsb, run_use hl, follow_done]
  refine (run_ask (.writeInode B.fsInfo inode) _).trans (if_pos ⟨hg, ?_⟩)
  rw [hg]
  exact hid

/-- What the store answers is what the call does. -/
theorem run_askReadBlock {b : Nat} {result : ReadBlockResult}
    (hb : S.readBlock defaultFsInfo b = .done result) (hg : B.fsInfo = defaultFsInfo) :
    (askReadBlock B.fsInfo b).run hostHandler ⟨S, F, L, T⟩ = (.done result, ⟨S, F, L, T⟩) := by
  refine (run_ask (.readBlock B.fsInfo b) _).trans ?_
  simp only [hostHandler, hb, hg, if_true]
  rfl

/-- **`read_block`** finds a block. -/
theorem run_readBlock {b : Nat} {block : Block}
    (hb : S.readBlock defaultFsInfo b = .done (.read block))
    (hg : B.fsInfo = defaultFsInfo) (himg : .image ∈ L) (hsb : .superblock ∈ L) :
    (readBlock h B b).run hostHandler ⟨S, F, L, T⟩ =
      (.done (some block), ⟨S, F, h :: L, T⟩) := by
  simp [readBlock, Prog.run_bind, himg, hsb, run_askReadBlock hb hg]

/-- On a header that counts both records and data `read_block` leaves the memory of its block. -/
theorem run_readBlock_mixed {b : Nat} (hb : S.readBlock defaultFsInfo b = .done .mixed)
    (hg : B.fsInfo = defaultFsInfo) (himg : .image ∈ L) (hsb : .superblock ∈ L) :
    (readBlock h B b).run hostHandler ⟨S, F, L, T⟩ = (.halted .memoryError, ⟨S, F, L, T⟩) := by
  simp [readBlock, Prog.run_bind, himg, hsb, run_askReadBlock hb hg]

/-- **`write_block`** stores a block, or fails. -/
theorem run_writeBlock {block : Block} {S' : Store} {result : WriteBlockResult}
    (hb : S.writeBlock defaultFsInfo block = (.done result, S'))
    (hres : result ≠ .destructed) (hg : B.fsInfo = defaultFsInfo) (himg : .image ∈ L)
    (hsb : .superblock ∈ L) (hl : h ∈ L) :
    (writeBlock h B block).run hostHandler ⟨S, F, L, T⟩ =
      (.done (decide (result = .stored)), ⟨S', F, L, S' :: T⟩) := by
  have hask : (askWriteBlock B.fsInfo block).run hostHandler ⟨S, F, L, T⟩ =
      (.done result, ⟨S', F, L, S' :: T⟩) := by
    refine (run_ask (.writeBlock B.fsInfo block) _).trans ?_
    simp only [hostHandler, hg, if_true, hb, Machine.put]
    rfl
  simp only [writeBlock, Prog.run_bind, run_use himg, run_use hsb, run_use hl, follow_done, hask]
  cases result with
  | stored => rfl
  | failed => rfl
  | rejected => rfl
  | destructed => exact absurd rfl hres

end Codecs

/-! ### Quiet programs -/

/-- A call that leaves the image, the other files and the log alone. -/
def HostCall.Quiet : HostCall → Prop
  | .openImage truncate => truncate = false
  | .writeSuperBlock _ | .writeDescriptorTable _ _ | .writeInode _ _ | .writeBlock _ _
  | .writeHostFile _ _ => False
  | _ => True

/-- A program all of whose calls are quiet. -/
abbrev Quiet {α : Type} (p : ExtProg α) : Prop := Prog.Within HostCall.Quiet p

/-- A quiet call changes nothing that lasts. -/
theorem hostHandler_quiet (c : HostCall) (hc : c.Quiet) (m : Machine) :
    (hostHandler c m).2.store = m.store ∧ (hostHandler c m).2.files = m.files ∧
      (hostHandler c m).2.log = m.log := by
  cases c <;> simp only [HostCall.Quiet] at hc <;> simp only [hostHandler] <;>
    (repeat' split) <;> simp_all

/-- A quiet program changes nothing but the live objects. -/
theorem Quiet.run {α : Type} {p : ExtProg α} (hp : Quiet p) (m : Machine) :
    (p.run hostHandler m).2.store = m.store ∧ (p.run hostHandler m).2.files = m.files ∧
      (p.run hostHandler m).2.log = m.log := by
  refine Prog.run_within hostHandler (R := fun m' => m'.store = m.store ∧ m'.files = m.files ∧
    m'.log = m.log) (fun c m' hc hm' => ?_) hp m ⟨rfl, rfl, rfl⟩
  obtain ⟨h₁, h₂, h₃⟩ := hostHandler_quiet c hc m'
  exact ⟨h₁.trans hm'.1, h₂.trans hm'.2.1, h₃.trans hm'.2.2⟩

/-- Such a call is a quiet program. -/
theorem quiet_ask {c : HostCall} (hc : c.Quiet) : Quiet (ask c) :=
  Prog.Within.perform (I := host) hc

end MiniExt
