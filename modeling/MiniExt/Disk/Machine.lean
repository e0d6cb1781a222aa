import MiniExt.Disk.Reads

namespace MiniExt

open Lib

/-!
# The host, byte by byte

The calls of a command over an image that is a file of bytes: each codec runs on the open
file, whatever the file holds and however short it is.

* `ByteMachine`, `byteHandler` — the machine, over any device that serves the image file;
* `WritesIf` — a codec that stores, and which buffers it asks for;
* `StepSafe` — the calls that come back with an answer;
* `byteHandler_answers_iff`, `byteHandler_settles` — the two facts about a single call.
-/

/-! ### The machine -/

/-- A command's host: the device behind the image file, the host files, the live objects. -/
structure ByteMachine (δ : Type) where
  device : δ
  files : HostFiles
  live : List Handle

/-- What a host does to the image file as a whole: it opens it, truncated or as it is, and through
    a path that leads to it, it reads the bytes and writes over their beginning. -/
structure ImageAccess (δ : Type) where
  reopen : Bool → δ → δ
  bytes : δ → List UInt8
  writeOver : List UInt8 → δ → δ

/-- The image file by itself. -/
def ImageFile.access : ImageAccess ImageFile where
  reopen truncate f := ⟨if truncate then [] else f.bytes, 0⟩
  bytes := ImageFile.bytes
  writeOver bytes f := { f with bytes := writeAt 0 f.bytes 0 bytes }

/-- The image file under a schedule of transfers. -/
def Transfers.access : ImageAccess Transfers where
  reopen truncate s := { s with file := ImageFile.access.reopen truncate s.file }
  bytes s := s.file.bytes
  writeOver bytes s := { s with file := ImageFile.access.writeOver bytes s.file }

variable {δ : Type}

/-- Run a codec on the device. -/
def onDevice {α : Type} (d : PartialHandler device δ Stop) (p : DeviceProg α)
    (m : ByteMachine δ) : Option (Outcome Stop α × ByteMachine δ) :=
  (p.run? d m.device).map (Prod.map id fun dev => { m with device := dev })

/-- The meaning of the host calls over the bytes of the image.  The files of the host are read and
    written whole, the image among them when a path leads to it. -/
def byteHandler (d : PartialHandler device δ Stop) (a : ImageAccess δ) :
    PartialHandler host (ByteMachine δ) Stop
  | .openImage truncate, m => some (.done true, { m with device := a.reopen truncate m.device })
  | .acquire h, m => some (.done (), { m with live := h :: m.live })
  | .use h, m => if h ∈ m.live then some (.done (), m) else some (.halted .memoryError, m)
  | .release h, m =>
    if h ∈ m.live then some (.done (), { m with live := m.live.erase h })
    else some (.halted .memoryError, m)
  | .readSuperBlock, m => onDevice d Device.readSuperBlock m
  | .writeSuperBlock sb, m => onDevice d (Device.writeSuperBlock sb) m
  | .readDescriptorsTable info, m => onDevice d (Device.readDescriptorsTable info) m
  | .writeDescriptorTable info dt, m => onDevice d (Device.writeDescriptorTable info dt) m
  | .readInode info inodeId, m => onDevice d (Device.readInode info inodeId) m
  | .writeInode info inode, m => onDevice d (Device.writeInode info inode) m
  | .readBlock info blockId, m => onDevice d (Device.readBlock info blockId) m
  | .writeBlock info block, m => onDevice d (Device.writeBlock info block) m
  | .readHostFile path, m =>
    some (.done (if m.files.isImage path then some (a.bytes m.device) else m.files path), m)
  | .writeHostFile path bytes, m =>
    some (.done true, if m.files.isImage path then { m with device := a.writeOver bytes m.device }
      else { m with files := overwrite m.files path bytes })

/-! ### Partial transfers -/

/-- The machine without the counter of its transfers. -/
def ByteMachine.erase (m : ByteMachine Transfers) : ByteMachine ImageFile :=
  ⟨m.device.file, m.files, m.live⟩

/-- A codec settles on the device as it does on its own. -/
theorem onDevice_settles {α : Type} (schedule : Schedule) (p : DeviceProg α)
    (m : ByteMachine Transfers) :
    Settles ByteMachine.erase (fun fuel => onDevice (scheduleHandler schedule fuel) p m)
      (onDevice fileHandler p m.erase) :=
  (run?_settles (scheduleHandler_settles schedule) p m.device).map id
    (u := fun dev => { m with device := dev }) (v := fun dev => { m.erase with device := dev })
    fun _ => rfl

/-- **Partial transfers make no difference** to a host call. -/
theorem byteHandler_settles (schedule : Schedule) (c : HostCall) (m : ByteMachine Transfers) :
    Settles ByteMachine.erase
      (fun fuel => byteHandler (scheduleHandler schedule fuel) Transfers.access c m)
      (byteHandler fileHandler ImageFile.access c m.erase) := by
  cases c with
  | openImage truncate =>
    exact settles_const (Outcome.done true)
      { m with device := Transfers.access.reopen truncate m.device }
  | acquire h => exact settles_const (Outcome.done ()) { m with live := h :: m.live }
  | use h =>
    by_cases hlive : h ∈ m.live
    · have hlive' : h ∈ m.erase.live := hlive
      simp only [byteHandler, if_pos hlive, if_pos hlive']
      exact settles_const (Outcome.done ()) m
    · have hlive' : h ∉ m.erase.live := hlive
      simp only [byteHandler, if_neg hlive, if_neg hlive']
      exact settles_const (Outcome.halted Stop.memoryError) m
  | release h =>
    by_cases hlive : h ∈ m.live
    · have hlive' : h ∈ m.erase.live := hlive
      simp only [byteHandler, if_pos hlive, if_pos hlive']
      exact settles_const (Outcome.done ()) { m with live := m.live.erase h }
    · have hlive' : h ∉ m.erase.live := hlive
      simp only [byteHandler, if_neg hlive, if_neg hlive']
      exact settles_const (Outcome.halted Stop.memoryError) m
  | readSuperBlock => exact onDevice_settles schedule _ m
  | writeSuperBlock sb => exact onDevice_settles schedule _ m
  | readDescriptorsTable info => exact onDevice_settles schedule _ m
  | writeDescriptorTable info dt => exact onDevice_settles schedule _ m
  | readInode info inodeId => exact onDevice_settles schedule _ m
  | writeInode info inode => exact onDevice_settles schedule _ m
  | readBlock info blockId =>
    -- kept folded: its program is long
    generalize hp : Device.readBlock info blockId = p
    simp only [byteHandler, hp]
    exact onDevice_settles schedule p m
  | writeBlock info block => exact onDevice_settles schedule _ m
  | readHostFile path => exact settles_const (Outcome.done _) m
  | writeHostFile path bytes =>
    by_cases hpath : m.files.isImage path = true
    · have hpath' : m.erase.files.isImage path = true := hpath
      simp only [byteHandler, if_pos hpath, if_pos hpath']
      exact settles_const (Outcome.done true)
        { m with device := Transfers.access.writeOver bytes m.device }
    · have hpath' : ¬ m.erase.files.isImage path = true := hpath
      simp only [byteHandler, if_neg hpath, if_neg hpath']
      exact settles_const (Outcome.done true) { m with files := overwrite m.files path bytes }

/-! ### Codecs that store -/

/-- The program asks its buffers to meet `ok`: then it stores them, and else it reads past
    the end of one. -/
structure WritesIf (p : DeviceProg Bool) (ok : Prop) : Prop where
  stores : ok → ∀ f, ∃ f', p.run? fileHandler f = some (.done true, f')
  fails : ¬ ok → ∀ f, ∃ f', p.run? fileHandler f = some (.halted .memoryError, f')

/-- Nothing to write is written. -/
theorem writesIf_pure : WritesIf (pure true) True where
  stores _ f := ⟨f, rfl⟩
  fails h := absurd trivial h

/-- A transfer is written when its buffer is long enough. -/
theorem writesIf_writeWhile (buffer : List UInt8) (count : Nat) :
    WritesIf (Device.writeWhile buffer count) (count ≤ buffer.length) where
  stores h f := by
    unfold Device.writeWhile
    rw [if_neg (Nat.not_lt.mpr h)]
    exact ⟨_, Prog.run?_perform fileHandler (.writeWhile _) f⟩
  fails h f := by
    unfold Device.writeWhile
    rw [if_pos (Nat.lt_of_not_le h)]
    exact ⟨f, rfl⟩

/-- One part after the other. -/
theorem WritesIf.bind {p : DeviceProg Bool} {k : Bool → DeviceProg Bool} {ok ok' : Prop}
    (hp : WritesIf p ok) (hk : WritesIf (k true) ok') : WritesIf (p >>= k) (ok ∧ ok') where
  stores h f := by
    obtain ⟨f₁, hrun⟩ := hp.stores h.1 f
    obtain ⟨f₂, hrest⟩ := hk.stores h.2 f₁
    exact ⟨f₂, by rw [Prog.run?_bind, hrun, follow?_done, hrest]⟩
  fails h f := by
    rw [Prog.run?_bind]
    by_cases hok : ok
    · obtain ⟨f₁, hrun⟩ := hp.stores hok f
      obtain ⟨f₂, hrest⟩ := hk.fails (fun hok' => h ⟨hok, hok'⟩) f₁
      exact ⟨f₂, by rw [hrun, follow?_done, hrest]⟩
    · obtain ⟨f₁, hrun⟩ := hp.fails hok f
      exact ⟨f₁, by rw [hrun, follow?_halted]⟩

/-- A codec that seeks first. -/
theorem WritesIf.seek {p : DeviceProg Bool} {ok : Prop} (hp : WritesIf p ok) (offset : Int) :
    WritesIf (do Device.lseek offset; p) ok where
  stores h f := by
    rw [run?_seek]
    exact hp.stores h _
  fails h f := by
    rw [run?_seek]
    exact hp.fails h _

/-- The condition of a write may be put in other words. -/
theorem WritesIf.of_iff {p : DeviceProg Bool} {ok ok' : Prop} (hp : WritesIf p ok)
    (h : ok ↔ ok') : WritesIf p ok' :=
  propext h ▸ hp

/-- A write comes back when its buffers are long enough. -/
theorem WritesIf.returns_iff {p : DeviceProg Bool} {ok : Prop} (hp : WritesIf p ok)
    (f : ImageFile) : p.Returns fileHandler f ↔ ok := by
  constructor
  · rintro ⟨b, f', hrun⟩
    by_contra hok
    obtain ⟨f₁, hfails⟩ := hp.fails hok f
    rw [hfails] at hrun
    cases hrun
  · intro hok
    obtain ⟨f', hrun⟩ := hp.stores hok f
    exact ⟨true, f', hrun⟩

/-- The masks of the superblock are as long as its geometry says. -/
def SuperblockWritable (sb : Superblock) : Prop :=
  sb.fsInfo.inodesCount ≤ sb.reservedInodesMask.length ∧
    sb.fsInfo.blocksCount ≤ sb.reservedBlocksMask.length

/-- The arrays of the table are as long as the geometry says. -/
def TableWritable (info : FsInfo) (dt : DescriptorsTable) : Prop :=
  info.descriptorsCount ≤ dt.reservedFd.length ∧ info.descriptorsCount ≤ dt.fdToInode.length ∧
    info.descriptorsCount ≤ dt.fdToPosition.length

/-- The inode has room for as many blocks as the geometry says. -/
def InodeWritable (info : FsInfo) (inode : Inode) : Prop :=
  info.blocksCountInInode ≤ inode.blockIds.length

/-- The first `count` records are there, each with a whole name field. -/
def RecordsWritable (info : FsInfo) (count : Nat) (rs : List BlockRecord) : Prop :=
  count ≤ rs.length ∧ ∀ r ∈ rs.take count, info.maxPathLen ≤ r.path.length

/-- The body of the block is there, unless the block is rejected before it is looked at. -/
def BlockWritable (info : FsInfo) (block : Block) : Prop :=
  (block.info.recordsCount ≠ 0 ∧ block.info.dataSize ≠ 0) ∨
    match block.records with
    | some rs => RecordsWritable info block.info.recordsCount rs
    | none => block.info.dataSize = 0 ∨ maxSizeOfData info ≤ block.data.length

/-- The superblock is written when its masks are as long as they should be. -/
theorem writesIf_writeSuperBlock (sb : Superblock) :
    WritesIf (Device.writeSuperBlock sb) (SuperblockWritable sb) := by
  refine WritesIf.of_iff (WritesIf.seek ((writesIf_writeWhile _ _).bind
    ((writesIf_writeWhile _ _).bind (writesIf_writeWhile _ _))) 0) ?_
  rw [length_encodeBools, length_encodeBools]
  exact and_iff_right (Nat.le_refl sizeofFsInfo)

/-- The descriptor table is written when its arrays are as long as they should be. -/
theorem writesIf_writeDescriptorTable (info : FsInfo) (dt : DescriptorsTable) :
    WritesIf (Device.writeDescriptorTable info dt) (TableWritable info dt) := by
  refine WritesIf.of_iff (WritesIf.seek ((writesIf_writeWhile _ _).bind
    ((writesIf_writeWhile _ _).bind (writesIf_writeWhile _ _))) _) ?_
  rw [length_encodeBools, length_encodeArray, length_encodeArray]
  unfold TableWritable
  omega

/-- An inode is written when its block list is as long as it should be. -/
theorem writesIf_writeInode (info : FsInfo) (inode : Inode) :
    WritesIf (Device.writeInode info inode) (InodeWritable info inode) := by
  refine WritesIf.of_iff (WritesIf.seek ((writesIf_writeWhile _ _).bind
    (writesIf_writeWhile _ _)) _) ?_
  rw [length_encodeArray]
  unfold InodeWritable
  have hinfo : sizeofInodeInfo ≤ (encodeInodeInfo inode).length := Nat.le_refl _
  omega

/-- A record is written when its name fills the field. -/
theorem writesIf_writeBlockRecord (info : FsInfo) (r : BlockRecord) :
    WritesIf (Device.writeBlockRecord info r) (info.maxPathLen ≤ r.path.length) := by
  refine WritesIf.of_iff ((writesIf_writeWhile _ _).bind (writesIf_writeWhile _ _)) ?_
  rw [length_encodeLE]
  exact and_iff_right (Nat.le_refl 2)

/-- Records are written when there are as many as are counted, each with a full name field. -/
theorem writesIf_writeRecords (info : FsInfo) (count : Nat) (rs : List BlockRecord) :
    WritesIf (Device.writeRecords info count rs) (RecordsWritable info count rs) := by
  induction count generalizing rs with
  | zero =>
    refine writesIf_pure.of_iff ?_
    constructor
    · intro _
      exact ⟨Nat.zero_le _, by simp⟩
    · intro _
      exact trivial
  | succ count ih =>
    cases rs with
    | nil =>
      constructor
      · rintro ⟨hcount, -⟩
        exact absurd hcount (Nat.not_succ_le_zero count)
      · intro _ f
        exact ⟨f, rfl⟩
    | cons r rs =>
      refine WritesIf.of_iff ((writesIf_writeBlockRecord info r).bind (ih rs)) ?_
      unfold RecordsWritable
      rw [List.length_cons, List.take_succ_cons, List.forall_mem_cons, Nat.add_le_add_iff_right]
      exact and_left_comm

/-- A last part that only looks at the result. -/
theorem WritesIf.returns_bind_iff {α : Type} {p : DeviceProg Bool} {ok : Prop} (hp : WritesIf p ok)
    {k : Bool → DeviceProg α} {a : α} (hk : k true = pure a) (f : ImageFile) :
    (p >>= k).Returns fileHandler f ↔ ok := by
  unfold Prog.Returns
  rw [Prog.run?_bind]
  constructor
  · rintro ⟨a, f', hrun⟩
    by_contra hok
    obtain ⟨f₁, hfails⟩ := hp.fails hok f
    rw [hfails, follow?_halted] at hrun
    cases hrun
  · intro hok
    obtain ⟨f', hrun⟩ := hp.stores hok f
    exact ⟨a, f', by rw [hrun, follow?_done, hk, Prog.run?_pure]⟩

/-- `write_block` comes back, whatever it returns, exactly if its buffers are long enough. -/
theorem returns_writeBlock (info : FsInfo) (block : Block) (f : ImageFile) :
    (Device.writeBlock info block).Returns fileHandler f ↔ BlockWritable info block := by
  obtain ⟨f', hheader⟩ := (writesIf_writeWhile (encodeBlockInfo block.info) sizeofBlockInfo).stores
    (Nat.le_refl _) (f.seek (blockOffset info block.info.blockId))
  unfold Device.writeBlock BlockWritable
  rw [returns_seek]
  unfold Prog.Returns
  rw [Prog.run?_bind, hheader, follow?_done]
  by_cases hmixed : block.info.recordsCount ≠ 0 ∧ block.info.dataSize ≠ 0
  · simp only [Bool.not_true, Bool.false_eq_true, if_false, if_pos hmixed]
    exact iff_of_true ⟨.rejected, f', rfl⟩ (.inl hmixed)
  · simp only [Bool.not_true, Bool.false_eq_true, if_false, if_neg hmixed]
    rw [or_iff_right hmixed]
    cases block.records with
    | some rs =>
      exact (writesIf_writeRecords info _ rs).returns_bind_iff (a := WriteBlockResult.stored) rfl f'
    | none =>
      by_cases hdata : block.info.dataSize = 0
      · simp only [if_pos hdata]
        exact iff_of_true ⟨.stored, f', rfl⟩ (.inl hdata)
      · simp only [if_neg hdata]
        rw [or_iff_right hdata]
        exact (writesIf_writeWhile block.data (maxSizeOfData info)).returns_bind_iff
          (a := WriteBlockResult.stored) rfl f'

/-! ### Calls that come back -/

/-- The call comes back with an answer: what it reads lies in the file, the buffers it stores
    are long enough, and the objects it uses are live. -/
def StepSafe : HostCall → ByteMachine ImageFile → Prop
  | .use h, m | .release h, m => h ∈ m.live
  | .readSuperBlock, m => SuperblockInside m.device
  | .writeSuperBlock sb, _ => SuperblockWritable sb
  | .readDescriptorsTable info, m => TableInside info m.device
  | .writeDescriptorTable info dt, _ => TableWritable info dt
  | .readInode info inodeId, m => InodeInside info inodeId m.device
  | .writeInode info inode, _ => InodeWritable info inode
  | .readBlock info blockId, m => BlockAnswered info blockId m.device
  | .writeBlock info block, _ => BlockWritable info block
  | .openImage _, _ | .acquire _, _ | .readHostFile _, _ | .writeHostFile _ _, _ => True

/-- A call that runs a codec comes back with an answer when the codec does. -/
theorem onDevice_answers_iff {α : Type} (p : DeviceProg α) (m : ByteMachine ImageFile) :
    (∃ r m', onDevice fileHandler p m = some (.done r, m')) ↔ p.Returns fileHandler m.device := by
  unfold onDevice Prog.Returns
  constructor
  · rintro ⟨r, m', hrun⟩
    obtain ⟨⟨o, f'⟩, hp, heq⟩ := Option.map_eq_some_iff.mp hrun
    cases heq
    exact ⟨r, f', hp⟩
  · rintro ⟨r, f', hp⟩
    rw [hp]
    exact ⟨r, _, rfl⟩

/-- **A call comes back with an answer** exactly if it is safe. -/
theorem byteHandler_answers_iff (c : HostCall) (m : ByteMachine ImageFile) :
    (∃ r m', byteHandler fileHandler ImageFile.access c m = some (.done r, m')) ↔
      StepSafe c m := by
  cases c with
  | openImage truncate => exact iff_true_intro ⟨_, _, rfl⟩
  | acquire h => exact iff_true_intro ⟨_, _, rfl⟩
  | use h =>
    show (∃ r m', byteHandler _ _ (.use h) m = some (.done r, m')) ↔ h ∈ m.live
    by_cases hlive : h ∈ m.live
    · exact iff_of_true ⟨(), m, if_pos hlive⟩ hlive
    · refine iff_of_false ?_ hlive
      rintro ⟨r, m', hrun⟩
      rw [byteHandler, if_neg hlive] at hrun
      cases hrun
  | release h =>
    show (∃ r m', byteHandler _ _ (.release h) m = some (.done r, m')) ↔ h ∈ m.live
    by_cases hlive : h ∈ m.live
    · exact iff_of_true ⟨(), _, if_pos hlive⟩ hlive
    · refine iff_of_false ?_ hlive
      rintro ⟨r, m', hrun⟩
      rw [byteHandler, if_neg hlive] at hrun
      cases hrun
  | readSuperBlock => exact (onDevice_answers_iff _ m).trans (returns_readSuperBlock m.device)
  | writeSuperBlock sb =>
    exact (onDevice_answers_iff _ m).trans ((writesIf_writeSuperBlock sb).returns_iff m.device)
  | readDescriptorsTable info =>
    exact (onDevice_answers_iff _ m).trans (returns_readDescriptorsTable info m.device)
  | writeDescriptorTable info dt =>
    exact (onDevice_answers_iff _ m).trans
      ((writesIf_writeDescriptorTable info dt).returns_iff m.device)
  | readInode info inodeId =>
    exact (onDevice_answers_iff _ m).trans (returns_readInode info inodeId m.device)
  | writeInode info inode =>
    exact (onDevice_answers_iff _ m).trans ((writesIf_writeInode info inode).returns_iff m.device)
  | readBlock info blockId =>
    exact (onDevice_answers_iff (Device.readBlock info blockId) m).trans
      (returns_readBlock info blockId m.device)
  | writeBlock info block =>
    exact (onDevice_answers_iff _ m).trans (returns_writeBlock info block m.device)
  | readHostFile path => exact iff_true_intro ⟨_, _, rfl⟩
  | writeHostFile path bytes => exact iff_true_intro ⟨_, _, rfl⟩

/-! ### Calls that halt -/

/-- The codec halts only where it leaves the memory of a structure. -/
def HaltsInMemory {α : Type} (p : DeviceProg α) : Prop :=
  ∀ f e f', p.run? fileHandler f = some (.halted e, f') → e = .memoryError

/-- A value does not halt. -/
theorem haltsInMemory_pure {α : Type} (a : α) : HaltsInMemory (pure a) := by
  intro f e f' hrun
  cases hrun

/-- A memory error is one. -/
theorem haltsInMemory_halt {α : Type} : HaltsInMemory (.halt .memoryError : DeviceProg α) := by
  intro f e f' hrun
  cases hrun
  rfl

/-- A seek does not halt. -/
theorem haltsInMemory_lseek (offset : Int) : HaltsInMemory (Device.lseek offset) := by
  intro f e f' hrun
  rw [run?_lseek] at hrun
  cases hrun

/-- A transfer does not halt. -/
theorem haltsInMemory_readWhile (n : Nat) : HaltsInMemory (Device.readWhile n) := by
  intro f e f' hrun
  by_cases hn : n ≤ f.left
  · rw [run?_readWhile hn] at hrun
    cases hrun
  · rw [run?_readWhile_short (Nat.lt_of_not_le hn)] at hrun
    cases hrun

/-- A write halts at most with a memory error. -/
theorem WritesIf.haltsInMemory {p : DeviceProg Bool} {ok : Prop} (hp : WritesIf p ok) :
    HaltsInMemory p := by
  intro f e f' hrun
  by_cases hok : ok
  · obtain ⟨f₁, hstores⟩ := hp.stores hok f
    rw [hstores] at hrun
    cases hrun
  · obtain ⟨f₁, hfails⟩ := hp.fails hok f
    rw [hfails] at hrun
    cases hrun
    rfl

/-- So do two parts one after the other. -/
theorem HaltsInMemory.bind {α β : Type} {p : DeviceProg α} {k : α → DeviceProg β}
    (hp : HaltsInMemory p) (hk : ∀ a, HaltsInMemory (k a)) : HaltsInMemory (p >>= k) := by
  intro f e f' hrun
  rw [Prog.run?_bind] at hrun
  rcases hp' : p.run? fileHandler f with _ | ⟨a | e', f₁⟩
  · rw [hp', follow?_none] at hrun
    cases hrun
  · rw [hp', follow?_done] at hrun
    exact hk a f₁ e f' hrun
  · rw [hp', follow?_halted] at hrun
    cases hrun
    exact hp f e f' hp'

/-- A read that returns `none` when a part of it does. -/
theorem HaltsInMemory.read {α β : Type} {p : DeviceProg (Option α)}
    {k : Option α → DeviceProg (Option β)} (hp : HaltsInMemory p) (hnone : k none = pure none)
    (hk : ∀ a, HaltsInMemory (k (some a))) : HaltsInMemory (p >>= k) := by
  refine hp.bind ?_
  intro r
  cases r with
  | none =>
    rw [hnone]
    exact haltsInMemory_pure none
  | some a => exact hk a

/-- `read_super_block` halts at most with a memory error. -/
theorem haltsInMemory_readSuperBlock : HaltsInMemory Device.readSuperBlock := by
  refine (haltsInMemory_lseek _).bind fun _ => (haltsInMemory_readWhile _).read rfl fun _ => ?_
  exact (haltsInMemory_readWhile _).read rfl fun _ => (haltsInMemory_readWhile _).read rfl fun _ =>
    haltsInMemory_pure _

/-- `read_descriptors_table` halts at most with a memory error. -/
theorem haltsInMemory_readDescriptorsTable (info : FsInfo) :
    HaltsInMemory (Device.readDescriptorsTable info) :=
  (haltsInMemory_lseek _).bind fun _ => (haltsInMemory_readWhile _).read rfl fun _ =>
    (haltsInMemory_readWhile _).read rfl fun _ => (haltsInMemory_readWhile _).read rfl fun _ =>
      haltsInMemory_pure _

/-- `read_inode` halts at most with a memory error. -/
theorem haltsInMemory_readInode (info : FsInfo) (inodeId : Nat) :
    HaltsInMemory (Device.readInode info inodeId) :=
  (haltsInMemory_lseek _).bind fun _ => (haltsInMemory_readWhile _).read rfl fun _ =>
    (haltsInMemory_readWhile _).read rfl fun _ => haltsInMemory_pure _

/-- The loop over the records halts at most with a memory error. -/
theorem haltsInMemory_readRecords (info : FsInfo) (count : Nat) :
    HaltsInMemory (Device.readRecords info count) := by
  induction count with
  | zero => exact haltsInMemory_pure _
  | succ count ih =>
    have hrecord : HaltsInMemory (Device.readBlockRecord info) :=
      (haltsInMemory_readWhile _).read rfl fun _ => (haltsInMemory_readWhile _).read rfl fun _ =>
        haltsInMemory_pure _
    exact hrecord.read rfl fun _ => ih.read rfl fun _ => haltsInMemory_pure _

/-- `read_block` halts at most with a memory error. -/
theorem haltsInMemory_readBlock (info : FsInfo) (blockId : Nat) :
    HaltsInMemory (Device.readBlock info blockId) := by
  refine (haltsInMemory_lseek _).bind fun _ => (haltsInMemory_readWhile _).bind fun bytes => ?_
  cases bytes with
  | none => exact haltsInMemory_pure _
  | some bytes =>
  dsimp only
  split
  · exact haltsInMemory_pure _
  split
  · refine (haltsInMemory_readRecords info _).bind fun rs => ?_
    cases rs with
    | none => exact haltsInMemory_pure _
    | some rs => exact haltsInMemory_pure _
  split
  · split
    · exact haltsInMemory_halt
    · exact (haltsInMemory_readWhile _).bind fun _ => haltsInMemory_pure _
  · exact haltsInMemory_pure _

/-- `write_block` halts at most with a memory error. -/
theorem haltsInMemory_writeBlock (info : FsInfo) (block : Block) :
    HaltsInMemory (Device.writeBlock info block) := by
  refine (haltsInMemory_lseek _).bind fun _ =>
    (writesIf_writeWhile _ _).haltsInMemory.bind fun stored => ?_
  split
  · exact haltsInMemory_pure _
  split
  · exact haltsInMemory_pure _
  split
  · exact (writesIf_writeRecords info _ _).haltsInMemory.bind fun _ => haltsInMemory_pure _
  · split
    · exact haltsInMemory_pure _
    · exact (writesIf_writeWhile _ _).haltsInMemory.bind fun _ => haltsInMemory_pure _

/-- Nothing else halts a call that runs such a codec. -/
theorem HaltsInMemory.onDevice {α : Type} {p : DeviceProg α} (hp : HaltsInMemory p)
    {m m' : ByteMachine ImageFile} {e : Stop}
    (hrun : MiniExt.onDevice fileHandler p m = some (.halted e, m')) : e = .memoryError := by
  obtain ⟨⟨o, f'⟩, hp', heq⟩ := Option.map_eq_some_iff.mp hrun
  cases heq
  exact hp _ _ _ hp'

/-- **A call halts** only in a memory error. -/
theorem byteHandler_halts (c : HostCall) {m m' : ByteMachine ImageFile} {e : Stop}
    (hrun : byteHandler fileHandler ImageFile.access c m = some (.halted e, m')) :
    e = .memoryError := by
  cases c with
  | openImage truncate => cases hrun
  | acquire h => cases hrun
  | use h =>
    by_cases hlive : h ∈ m.live
    · rw [byteHandler, if_pos hlive] at hrun
      cases hrun
    · rw [byteHandler, if_neg hlive] at hrun
      cases hrun
      rfl
  | release h =>
    by_cases hlive : h ∈ m.live
    · rw [byteHandler, if_pos hlive] at hrun
      cases hrun
    · rw [byteHandler, if_neg hlive] at hrun
      cases hrun
      rfl
  | readSuperBlock => exact haltsInMemory_readSuperBlock.onDevice hrun
  | writeSuperBlock sb => exact (writesIf_writeSuperBlock sb).haltsInMemory.onDevice hrun
  | readDescriptorsTable info => exact (haltsInMemory_readDescriptorsTable info).onDevice hrun
  | writeDescriptorTable info dt =>
    exact (writesIf_writeDescriptorTable info dt).haltsInMemory.onDevice hrun
  | readInode info inodeId => exact (haltsInMemory_readInode info inodeId).onDevice hrun
  | writeInode info inode => exact (writesIf_writeInode info inode).haltsInMemory.onDevice hrun
  | readBlock info blockId =>
    unfold byteHandler at hrun
    exact (haltsInMemory_readBlock info blockId).onDevice hrun
  | writeBlock info block => exact (haltsInMemory_writeBlock info block).onDevice hrun
  | readHostFile path => cases hrun
  | writeHostFile path bytes => cases hrun

end MiniExt
