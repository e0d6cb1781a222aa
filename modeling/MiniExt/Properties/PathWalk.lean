import Mathlib.Data.Option.Basic
import MiniExt.Disk.Machine
import MiniExt.Paths
import MiniExt.Properties.Names

namespace MiniExt

open Lib

/-!
# The path walk

`get_inode_id_of_dir` reads an inode and a block for every component of a path.  On any image
whose directories can be read it computes the obvious walk: from the root, name by name, to the
inode of the first record with that name.

* `inodeAt`, `firstBlockAt`, `childOf` — what the bytes of an image say of its directories;
* `referenceWalk` — the walk, on the components of the path;
* `DirectoriesWellFormed` — the directories the walk can come to are readable;
* `getInodeIdOfDir_walks` — that the program computes the walk.
-/

/-! ### The directories of an image -/

section Directories

variable (info : FsInfo) (bytes : List UInt8)

/-- The inode `read_inode` returns. -/
def inodeAt (i : Nat) : Option Inode :=
  match (Device.readInode info i).run? fileHandler ⟨bytes, 0⟩ with
  | some (.done inode, _) => inode
  | _ => none

/-- The block `read_block` returns, where its offset is one of the file. -/
def blockAt (b : Nat) : Option Block :=
  if blockOffset info b < 0 then none
  else
    match (Device.readBlock info b).run? fileHandler ⟨bytes, 0⟩ with
    | some (.done (.read block), _) => some block
    | _ => none

/-- The first block of an inode. -/
def firstBlockAt (inode : Inode) : Option Block := inode.blockIds[0]?.bind (blockAt info bytes)

/-- The inode is a directory. -/
def isDirAt (i : Nat) : Bool :=
  match inodeAt info bytes i with
  | some inode => !inode.isFile
  | none => false

/-- The inode the first record with a name leads to, in the first block of a directory. -/
def childOf (d : Nat) (name : List UInt8) : Option Nat :=
  match inodeAt info bytes d with
  | some inode =>
    if inode.isFile then none
    else (firstBlockAt info bytes inode).bind fun block =>
      (block.recordList.find? (·.name = name)).map (·.inodeId)
  | none => none

/-- Follow names from an inode.  After a trailing slash the last inode has to be a directory. -/
def walkFrom (current : Nat) (names : List (List UInt8)) : Option Nat :=
  if names.getLast? = some [] then
    (names.dropLast.foldlM (childOf info bytes) current).filter (isDirAt info bytes)
  else names.foldlM (childOf info bytes) current

/-- The walk along a path, from the root. -/
def referenceWalk (path : List UInt8) : Option Nat :=
  walkFrom info bytes rootInodeId (components path)

/-- The inodes the records of directories lead to, from the root. -/
inductive Listed : Nat → Prop where
  | root : Listed rootInodeId
  | record {d : Nat} {inode : Inode} {block : Block} {r : BlockRecord} : Listed d →
    inodeAt info bytes d = some inode → inode.isFile = false →
    firstBlockAt info bytes inode = some block → r ∈ block.recordList → Listed r.inodeId

/-- Every directory the walk can come to has a first block that can be read, so one that does
    not count both records and data, and the records lead to inodes of the image. -/
structure DirectoriesWellFormed : Prop where
  inode : ∀ i, Listed info bytes i → i < info.inodesCount ∧ (inodeAt info bytes i).isSome
  block : ∀ i inode, Listed info bytes i → inodeAt info bytes i = some inode →
    inode.isFile = false → (firstBlockAt info bytes inode).isSome

end Directories

/-- What is said of the directories holds of every inode that is listed. -/
theorem DirectoriesWellFormed.at {info : FsInfo} {bytes : List UInt8}
    (hwf : DirectoriesWellFormed info bytes) {i : Nat} (hl : Listed info bytes i) :
    ∃ inode, inodeAt info bytes i = some inode ∧ (inode.isFile = true ∨ inode.isFile = false ∧
      ∃ b block, inode.blockIds[0]? = some b ∧ blockAt info bytes b = some block) := by
  obtain ⟨inode, hi⟩ := Option.isSome_iff_exists.mp (hwf.inode i hl).2
  refine ⟨inode, hi, ?_⟩
  by_cases hfile : inode.isFile = true
  · exact .inl hfile
  · have hdir : inode.isFile = false := by simpa using hfile
    obtain ⟨block, hfirst⟩ := Option.isSome_iff_exists.mp (hwf.block i inode hl hi hdir)
    obtain ⟨b, hb, hblock⟩ := Option.bind_eq_some_iff.mp hfirst
    exact .inr ⟨hdir, b, block, hb, hblock⟩

/-! ### Codecs that only read -/

/-- A call on the image file that does not write. -/
def DeviceCall.Reads : DeviceCall → Prop
  | .lseek _ | .readWhile _ => True
  | .writeWhile _ => False

/-- A seek only reads. -/
theorem reads_lseek (offset : Int) : (Device.lseek offset).Within DeviceCall.Reads :=
  Prog.Within.perform (I := device) trivial

/-- `read_while` only reads. -/
theorem reads_readWhile (n : Nat) : (Device.readWhile n).Within DeviceCall.Reads :=
  Prog.Within.perform (I := device) trivial

/-- A read that stops when a part of it does. -/
theorem reads_bind {α β : Type} {p : DeviceProg (Option α)} {failed : β}
    {k : Option α → DeviceProg β} (hp : p.Within DeviceCall.Reads)
    (hnone : k none = pure failed) (hk : ∀ a, (k (some a)).Within DeviceCall.Reads) :
    (p >>= k).Within DeviceCall.Reads := by
  refine hp.bind ?_
  intro r
  cases r with
  | none =>
    rw [hnone]
    exact .pure failed
  | some a => exact hk a

/-- `read_inode` only reads. -/
theorem reads_readInode (info : FsInfo) (i : Nat) :
    (Device.readInode info i).Within DeviceCall.Reads :=
  (reads_lseek _).bind fun _ => reads_bind (reads_readWhile _) rfl fun _ =>
    reads_bind (reads_readWhile _) rfl fun _ => .pure _

/-- The loop over the records only reads. -/
theorem reads_readRecords (info : FsInfo) (count : Nat) :
    (Device.readRecords info count).Within DeviceCall.Reads := by
  induction count with
  | zero => exact .pure _
  | succ count ih =>
    have hrecord : (Device.readBlockRecord info).Within DeviceCall.Reads :=
      reads_bind (reads_readWhile _) rfl fun _ => reads_bind (reads_readWhile _) rfl fun _ =>
        .pure _
    exact reads_bind hrecord rfl fun _ => reads_bind ih rfl fun _ => .pure _

/-- `read_block` only reads. -/
theorem reads_readBlock (info : FsInfo) (b : Nat) :
    (Device.readBlock info b).Within DeviceCall.Reads := by
  refine (reads_lseek _).bind fun _ => reads_bind (reads_readWhile _) rfl fun bytes => ?_
  dsimp only
  split
  · exact .pure _
  split
  · exact reads_bind (reads_readRecords info _) rfl fun _ => .pure _
  split
  · split
    · exact .halt _
    · exact (reads_readWhile _).bind fun _ => .pure _
  · exact .pure _

/-- A codec that only reads leaves the bytes of the file alone. -/
theorem bytes_of_reads {α : Type} {p : DeviceProg α} (hp : p.Within DeviceCall.Reads)
    {f f' : ImageFile} {o : Outcome Stop α} (hrun : p.run? fileHandler f = some (o, f')) :
    f'.bytes = f.bytes := by
  refine Prog.run?_within (R := fun g => g.bytes = f.bytes) ?_ hp rfl hrun
  intro c g o g' hc hg hstep
  cases c with
  | lseek offset =>
    cases hstep
    show (if offset < 0 then g else { g with pos := offset.toNat }).bytes = f.bytes
    split <;> exact hg
  | readWhile n =>
    by_cases hn : n ≤ g.left
    · rw [show fileHandler (.readWhile n) g = _ from if_pos hn] at hstep
      cases hstep
      exact hg
    · rw [show fileHandler (.readWhile n) g = _ from if_neg hn] at hstep
      cases hstep
  | writeWhile bytes => exact absurd hc not_false

section Reads

variable {info : FsInfo}

/-- `read_inode` finds the inode that the bytes hold. -/
theorem run?_readInode_of {f : ImageFile} {i : Nat} {inode : Inode}
    (h : inodeAt info f.bytes i = some inode) :
    ∃ pos, (Device.readInode info i).run? fileHandler f =
      some (.done (some inode), ⟨f.bytes, pos⟩) := by
  have hanywhere : (Device.readInode info i).run? fileHandler f =
      (Device.readInode info i).run? fileHandler ⟨f.bytes, 0⟩ := by
    unfold Device.readInode
    rw [run?_seek, run?_seek, ImageFile.seek_eq (Int.natCast_nonneg _),
      ImageFile.seek_eq (Int.natCast_nonneg _)]
  unfold inodeAt at h
  rcases hrun : (Device.readInode info i).run? fileHandler ⟨f.bytes, 0⟩ with _ | ⟨r | e, f'⟩
  · rw [hrun] at h
    cases h
  · rw [hrun] at h
    cases h
    have hbytes := bytes_of_reads (reads_readInode info i) hrun
    exact ⟨f'.pos, by rw [hanywhere, hrun, ← show f'.bytes = f.bytes from hbytes]⟩
  · rw [hrun] at h
    cases h

/-- `read_block` finds the block that the bytes hold. -/
theorem run?_readBlock_of {f : ImageFile} {b : Nat} {block : Block}
    (h : blockAt info f.bytes b = some block) :
    ∃ pos, (Device.readBlock info b).run? fileHandler f =
      some (.done (.read block), ⟨f.bytes, pos⟩) := by
  unfold blockAt at h
  by_cases hoffset : blockOffset info b < 0
  · rw [if_pos hoffset] at h
    cases h
  rw [if_neg hoffset] at h
  have hanywhere : (Device.readBlock info b).run? fileHandler f =
      (Device.readBlock info b).run? fileHandler ⟨f.bytes, 0⟩ := by
    unfold Device.readBlock
    rw [run?_seek, run?_seek, ImageFile.seek_eq (Int.not_lt.mp hoffset),
      ImageFile.seek_eq (Int.not_lt.mp hoffset)]
  rcases hrun : (Device.readBlock info b).run? fileHandler ⟨f.bytes, 0⟩ with _ | ⟨r | e, f'⟩
  · rw [hrun] at h
    cases h
  · rw [hrun] at h
    cases r with
    | read block' =>
      cases h
      have hbytes := bytes_of_reads (reads_readBlock info b) hrun
      exact ⟨f'.pos, by rw [hanywhere, hrun, ← show f'.bytes = f.bytes from hbytes]⟩
    | failed => cases h
    | mixed => cases h
    | destructed => cases h
  · rw [hrun] at h
    cases h

/-- Every record read has a name field of `max_path_len` bytes. -/
theorem length_path_of_readRecords {count : Nat} {f f' : ImageFile} {rs : List BlockRecord}
    (hrun : (Device.readRecords info count).run? fileHandler f = some (.done (some rs), f')) :
    ∀ r ∈ rs, r.path.length = info.maxPathLen := by
  induction count generalizing f rs with
  | zero =>
    cases hrun
    exact List.forall_mem_nil _
  | succ count ih =>
    rw [Device.readRecords, Device.readBlockRecord, Prog.run?_bind, Prog.run?_bind] at hrun
    by_cases hid : 2 ≤ f.left
    · rw [run?_readWhile hid, follow?_done] at hrun
      dsimp only at hrun
      rw [Prog.run?_bind] at hrun
      by_cases hname : info.maxPathLen ≤ (f.skip 2).left
      · rw [run?_readWhile hname, follow?_done, Prog.run?_pure, follow?_done] at hrun
        dsimp only at hrun
        rw [Prog.run?_bind] at hrun
        rcases hrest : (Device.readRecords info count).run? fileHandler
          ((f.skip 2).skip info.maxPathLen) with _ | ⟨(_ | rest) | e, g⟩
        · rw [hrest] at hrun
          cases hrun
        · rw [hrest] at hrun
          cases hrun
        · rw [hrest] at hrun
          cases hrun
          refine List.forall_mem_cons.mpr ⟨?_, ih hrest⟩
          rw [List.length_take]
          exact Nat.min_eq_left hname
        · rw [hrest] at hrun
          cases hrun
      · rw [run?_readWhile_short (Nat.lt_of_not_le hname)] at hrun
        cases hrun
    · rw [run?_readWhile_short (Nat.lt_of_not_le hid)] at hrun
      cases hrun

/-- The names of a block that was read fill their fields. -/
theorem length_path_of_blockAt {bytes : List UInt8} {b : Nat} {block : Block}
    (h : blockAt info bytes b = some block) :
    ∀ r ∈ block.recordList, r.path.length = info.maxPathLen := by
  obtain ⟨pos, hrun⟩ := run?_readBlock_of (f := ⟨bytes, 0⟩) h
  rcases run?_readBlock_cases rfl hrun with ⟨_, hnone⟩ | ⟨_, read, hread, hrecords⟩
  · cases hnone
  cases hread
  unfold Block.recordList
  rcases hrs : block.records with _ | rs
  · exact List.forall_mem_nil _
  · obtain ⟨g, g', hreadRecords⟩ := hrecords rs hrs
    exact length_path_of_readRecords hreadRecords

end Reads

/-! ### The comparison of names -/

/-- A name that is shorter than the field it is compared with ends the comparison before the
    field does. -/
theorem strcmpField_eq {field name : List UInt8} (hlen : name.length < field.length)
    (hz : 0 ∉ name) :
    strcmpField field name = some (decide (field.takeWhile (· ≠ 0) = name)) := by
  induction field generalizing name with
  | nil => exact absurd hlen (Nat.not_lt_zero _)
  | cons x field ih =>
    cases name with
    | nil =>
      by_cases hx : x = 0
      · simp [strcmpField, hx]
      · simp [strcmpField, hx]
    | cons y name =>
      have hy : y ≠ 0 := fun heq => hz (heq ▸ List.mem_cons_self ..)
      unfold strcmpField
      by_cases hxy : x = y
      · subst hxy
        rw [if_pos rfl, ih (Nat.lt_of_succ_lt_succ hlen) fun hm => hz (List.mem_cons_of_mem _ hm)]
        simp [hy]
      · rw [if_neg hxy]
        by_cases hx : x = 0
        · simp [hx]
        · simp [hx, hxy]

/-- A name that is shorter than the fields is compared within them. -/
theorem findRecord_of_short {rs : List BlockRecord} {name : List UInt8} {n : Nat}
    (hrs : ∀ r ∈ rs, r.path.length = n) (hlen : name.length < n) (hz : 0 ∉ name) :
    findRecord rs name = .done ((rs.find? (·.name = name)).map (·.inodeId)) := by
  induction rs with
  | nil => rfl
  | cons r rs ih =>
    obtain ⟨hr, hrest⟩ := List.forall_mem_cons.mp hrs
    have hcmp : strcmpField r.path name = some (decide (r.name = name)) :=
      strcmpField_eq (hr ▸ hlen) hz
    unfold findRecord
    rw [hcmp, List.find?_cons]
    by_cases heq : r.name = name
    · rw [decide_eq_true heq]
      rfl
    · rw [decide_eq_false heq]
      exact ih hrest

/-! ### The runs of the codecs -/

section Runs

variable {sb : Superblock} {bytes : List UInt8} {pos : Nat} {F : HostFiles} {L : List Handle}
  {h : Handle}

/-- A call is what the bytes make of it. -/
theorem run?_ask (c : HostCall) (m : ByteMachine ImageFile) :
    (ask c).run? (byteHandler fileHandler ImageFile.access) m =
      byteHandler fileHandler ImageFile.access c m :=
  Prog.run?_perform (byteHandler fileHandler ImageFile.access) c m

/-- A live object is used. -/
theorem run?_use (hl : h ∈ L) (f : ImageFile) :
    (use h).run? (byteHandler fileHandler ImageFile.access) ⟨f, F, L⟩ =
      some (.done (), ⟨f, F, L⟩) :=
  (run?_ask (.use h) _).trans (if_pos hl)

/-- The last object is released. -/
theorem run?_release (f : ImageFile) :
    (release h).run? (byteHandler fileHandler ImageFile.access) ⟨f, F, h :: L⟩ =
      some (.done (), ⟨f, F, L⟩) := by
  refine (run?_ask (.release h) _).trans ((if_pos (List.mem_cons_self ..)).trans ?_)
  rw [List.erase_cons_head]
  rfl

/-- An object is acquired. -/
theorem run?_acquire (f : ImageFile) :
    (acquire h).run? (byteHandler fileHandler ImageFile.access) ⟨f, F, L⟩ =
      some (.done (), ⟨f, F, h :: L⟩) :=
  run?_ask (.acquire h) _

/-- An entry of an array is found. -/
theorem run?_index {α : Type} {xs : List α} {i : Nat} {x : α} (hx : xs[i]? = some x)
    (m : ByteMachine ImageFile) :
    (index xs i).run? (byteHandler fileHandler ImageFile.access) m = some (.done x, m) := by
  simp only [index, hx]
  rfl

/-- `read_inode` returns what the bytes of the image say. -/
theorem run?_readInode (h : Handle) (pos : Nat) (F : HostFiles) {i : Nat} {inode : Inode}
    (hi : inodeAt sb.fsInfo bytes i = some inode) (himg : .image ∈ L) (hsb : .superblock ∈ L) :
    ∃ pos', (readInode h sb i).run? (byteHandler fileHandler ImageFile.access)
      ⟨⟨bytes, pos⟩, F, L⟩ = some (.done (some inode), ⟨⟨bytes, pos'⟩, F, h :: L⟩) := by
  obtain ⟨pos', hrun⟩ := run?_readInode_of (f := ⟨bytes, pos⟩) hi
  have hask : (askReadInode sb.fsInfo i).run? (byteHandler fileHandler ImageFile.access)
      ⟨⟨bytes, pos⟩, F, L⟩ = some (.done (some inode), ⟨⟨bytes, pos'⟩, F, L⟩) := by
    refine (run?_ask (.readInode sb.fsInfo i) _).trans ?_
    show onDevice fileHandler (Device.readInode sb.fsInfo i) _ = _
    unfold onDevice
    rw [hrun]
    rfl
  refine ⟨pos', ?_⟩
  simp only [readInode, Prog.run?_bind, run?_use himg, run?_use hsb, hask, follow?_done,
    Option.isSome_some, if_true, run?_acquire, Prog.run?_pure]

/-- `read_block` returns what the bytes of the image say. -/
theorem run?_readBlock (h : Handle) (pos : Nat) (F : HostFiles) {b : Nat} {block : Block}
    (hb : blockAt sb.fsInfo bytes b = some block) (himg : .image ∈ L) (hsb : .superblock ∈ L) :
    ∃ pos', (readBlock h sb b).run? (byteHandler fileHandler ImageFile.access)
      ⟨⟨bytes, pos⟩, F, L⟩ = some (.done (some block), ⟨⟨bytes, pos'⟩, F, h :: L⟩) := by
  obtain ⟨pos', hrun⟩ := run?_readBlock_of (f := ⟨bytes, pos⟩) hb
  have hask : (askReadBlock sb.fsInfo b).run? (byteHandler fileHandler ImageFile.access)
      ⟨⟨bytes, pos⟩, F, L⟩ = some (.done (.read block), ⟨⟨bytes, pos'⟩, F, L⟩) := by
    refine (run?_ask (.readBlock sb.fsInfo b) _).trans ?_
    show onDevice fileHandler (Device.readBlock sb.fsInfo b) _ = _
    unfold onDevice
    rw [hrun]
    rfl
  refine ⟨pos', ?_⟩
  simp only [readBlock, Prog.run?_bind, run?_use himg, run?_use hsb, hask, follow?_done,
    run?_acquire, Prog.run?_pure]

end Runs

/-! ### The walk -/

section Walk

variable {info : FsInfo} {bytes : List UInt8} {current : Nat} {c : List UInt8}
  {cs : List (List UInt8)} {inode : Inode}

/-- An empty component stays at a directory. -/
theorem walkFrom_root : walkFrom info bytes current [[]] =
    if isDirAt info bytes current then some current else none := by
  show Option.filter (isDirAt info bytes) (some current) = _
  rw [Option.filter_some]

/-- The last component is a child. -/
theorem walkFrom_last (hc : c ≠ []) :
    walkFrom info bytes current [c] = childOf info bytes current c := by
  unfold walkFrom
  rw [List.getLast?_singleton, if_neg fun heq => hc (Option.some_inj.mp heq)]
  show (childOf info bytes current c).bind some = _
  rcases childOf info bytes current c with _ | next <;> rfl

/-- Another component is a child to walk on from. -/
theorem walkFrom_cons (hcs : cs ≠ []) : walkFrom info bytes current (c :: cs) =
    (childOf info bytes current c).bind fun next => walkFrom info bytes next cs := by
  unfold walkFrom
  rw [List.getLast?_cons_of_ne_nil hcs, List.dropLast_cons_of_ne_nil hcs, List.foldlM_cons,
    List.foldlM_cons]
  rcases childOf info bytes current c with _ | next
  · by_cases htrailing : cs.getLast? = some []
    · rw [if_pos htrailing]
      rfl
    · rw [if_neg htrailing]
      rfl
  · rfl

/-- A file has no children. -/
theorem childOf_file (hi : inodeAt info bytes current = some inode) (hfile : inode.isFile = true) :
    childOf info bytes current c = none := by
  unfold childOf
  rw [hi]
  exact if_pos hfile

/-- The children of a directory are in its first block. -/
theorem childOf_directory {block : Block} (hi : inodeAt info bytes current = some inode)
    (hdir : inode.isFile = false) (hb : firstBlockAt info bytes inode = some block) :
    childOf info bytes current c =
      (block.recordList.find? (·.name = c)).map (·.inodeId) := by
  unfold childOf
  rw [hi]
  simp only [hdir, hb, Bool.false_eq_true, if_false, Option.bind_some]

/-- The walk comes to what a record leads to. -/
theorem Listed.child {next : Nat} (hl : Listed info bytes current)
    (hnext : childOf info bytes current c = some next) : Listed info bytes next := by
  rcases hi : inodeAt info bytes current with _ | inode
  · simp only [childOf, hi] at hnext
    cases hnext
  by_cases hfile : inode.isFile = true
  · rw [childOf_file hi hfile] at hnext
    cases hnext
  have hdir : inode.isFile = false := by simpa using hfile
  rcases hb : firstBlockAt info bytes inode with _ | block
  · simp only [childOf, hi, hdir, hb] at hnext
    cases hnext
  rw [childOf_directory hi hdir hb] at hnext
  obtain ⟨r, hr, rfl⟩ := Option.map_eq_some_iff.mp hnext
  exact hl.record hi hdir hb (List.mem_of_find?_eq_some hr)

/-- From a file the walk goes nowhere. -/
theorem walkFrom_file (hi : inodeAt info bytes current = some inode)
    (hfile : inode.isFile = true) {path : List UInt8} (hp : Parses info path cs) :
    walkFrom info bytes current cs = none := by
  cases hp with
  | root _ =>
    have hkind : isDirAt info bytes current = false := by
      simp only [isDirAt, hi, hfile, Bool.not_true]
    rw [walkFrom_root, hkind]
    rfl
  | last hne _ _ _ _ => rw [walkFrom_last hne, childOf_file hi hfile]
  | cons hne _ _ _ _ hrest =>
    rw [walkFrom_cons hrest.ne_nil, childOf_file hi hfile]
    rfl

end Walk

section Program

variable {sb : Superblock} {bytes : List UInt8} {pos current : Nat} {F : HostFiles}
  {L : List Handle}

/-- One level of the walk at a file. -/
theorem run?_walkFile {inode : Inode} (hi : inodeAt sb.fsInfo bytes current = some inode)
    (hfile : inode.isFile = true) (himg : .image ∈ L) (hsb : .superblock ∈ L) (fuel depth : Nat)
    (path : List UInt8) :
    ∃ pos', (getInodeIdOfDirRec sb (fuel + 1) depth path current).run?
      (byteHandler fileHandler ImageFile.access) ⟨⟨bytes, pos⟩, F, L⟩ =
        some (.done none, ⟨⟨bytes, pos'⟩, F, L⟩) := by
  obtain ⟨pos₁, hread⟩ := run?_readInode (.walkInode depth) pos F hi himg hsb
  refine ⟨pos₁, ?_⟩
  simp only [getInodeIdOfDirRec, Prog.run?_bind, hread, follow?_done, hfile, if_true,
    run?_use (List.mem_cons_self ..), run?_release, Prog.run?_pure]

/-- One level of the walk at a directory, at the slash that ends the path. -/
theorem run?_walkRoot {inode : Inode} (hi : inodeAt sb.fsInfo bytes current = some inode)
    (hdir : inode.isFile = false) (himg : .image ∈ L) (hsb : .superblock ∈ L)
    (hparse : parsePath sb.fsInfo [slash] = .done ([slash], none)) (fuel depth : Nat) :
    ∃ pos', (getInodeIdOfDirRec sb (fuel + 1) depth [slash] current).run?
      (byteHandler fileHandler ImageFile.access) ⟨⟨bytes, pos⟩, F, L⟩ =
        some (.done (some current), ⟨⟨bytes, pos'⟩, F, L⟩) := by
  obtain ⟨pos₁, hread⟩ := run?_readInode (.walkInode depth) pos F hi himg hsb
  refine ⟨pos₁, ?_⟩
  simp only [getInodeIdOfDirRec, Prog.run?_bind, hread, follow?_done, hdir, Bool.false_eq_true,
    if_false, hparse, Prog.run?_ofOutcome, if_true, run?_use (List.mem_cons_self ..), run?_release,
    Prog.run?_pure]

/-- One level of the walk at a directory, at a component: the record is looked up, and the rest
    of the path, if there is one, followed from there. -/
theorem run?_walkName {inode : Inode} {block : Block} {b : Nat} {c path : List UInt8}
    {rest : Option (List UInt8)} {r : Nat → Option Nat}
    (hi : inodeAt sb.fsInfo bytes current = some inode) (hdir : inode.isFile = false)
    (hb : inode.blockIds[0]? = some b) (hblock : blockAt sb.fsInfo bytes b = some block)
    (himg : .image ∈ L) (hsb : .superblock ∈ L)
    (hparse : parsePath sb.fsInfo path = .done (c, rest)) (hslash : slash ∉ c) (hz : 0 ∉ c)
    (hlen : c.length + 2 ≤ sb.fsInfo.maxPathLen) (fuel depth : Nat)
    (hlast : rest = none → r = some)
    (hrest : ∀ t next, rest = some t → childOf sb.fsInfo bytes current c = some next → ∀ pos,
      ∃ pos', (getInodeIdOfDirRec sb fuel (depth + 1) t next).run?
        (byteHandler fileHandler ImageFile.access)
          ⟨⟨bytes, pos⟩, F, .walkBlock depth :: .walkInode depth :: L⟩ =
            some (.done (r next), ⟨⟨bytes, pos'⟩, F, .walkBlock depth :: .walkInode depth :: L⟩)) :
    ∃ pos', (getInodeIdOfDirRec sb (fuel + 1) depth path current).run?
      (byteHandler fileHandler ImageFile.access) ⟨⟨bytes, pos⟩, F, L⟩ =
        some (.done ((childOf sb.fsInfo bytes current c).bind r), ⟨⟨bytes, pos'⟩, F, L⟩) := by
  obtain ⟨pos₁, hread⟩ := run?_readInode (.walkInode depth) pos F hi himg hsb
  obtain ⟨pos₂, hreadBlock⟩ := run?_readBlock (.walkBlock depth) pos₁ F hblock
    (List.mem_cons_of_mem (.walkInode depth) himg) (List.mem_cons_of_mem _ hsb)
  have hname : c ≠ [slash] := fun heq => hslash (heq ▸ List.mem_cons_self ..)
  have hfirst : firstBlockAt sb.fsInfo bytes inode = some block := by
    unfold firstBlockAt
    rw [hb, Option.bind_some, hblock]
  -- the comparison of names never runs off the end of a name field
  have hfind : findRecord block.recordList c = .done (childOf sb.fsInfo bytes current c) := by
    rw [childOf_directory hi hdir hfirst]
    exact findRecord_of_short (length_path_of_blockAt hblock) (by omega) hz
  simp only [getInodeIdOfDirRec, Prog.run?_bind, hread, follow?_done, hdir, Bool.false_eq_true,
    if_false, hparse, Prog.run?_ofOutcome, if_neg hname, run?_index hb, hreadBlock,
    run?_use (List.mem_cons_self ..), Option.getD_some, hfind]
  rcases hchild : childOf sb.fsInfo bytes current c with _ | next
  · refine ⟨pos₂, ?_⟩
    simp only [Prog.run?_bind, run?_release, follow?_done, Prog.run?_pure, Option.bind_none]
  · rcases hrest' : rest with _ | t
    · refine ⟨pos₂, ?_⟩
      simp only [Prog.run?_bind, run?_release, follow?_done, Prog.run?_pure, hlast hrest',
        Option.bind_some]
    · obtain ⟨pos₃, hrec⟩ := hrest t next hrest' hchild pos₂
      refine ⟨pos₃, ?_⟩
      simp only [Prog.run?_bind, hrec, run?_release, follow?_done, Prog.run?_pure,
        Option.bind_some]

/-- **The walk** of the program, from any inode it can come to. -/
theorem run?_getInodeIdOfDirRec (pos : Nat) (F : HostFiles)
    (hwf : DirectoriesWellFormed sb.fsInfo bytes) (hl : Listed sb.fsInfo bytes current)
    (himg : .image ∈ L) (hsb : .superblock ∈ L)
    {path : List UInt8} {cs : List (List UInt8)} (hp : Parses sb.fsInfo path cs) (fuel depth : Nat)
    (hfuel : path.length < fuel) :
    ∃ pos', (getInodeIdOfDirRec sb fuel depth path current).run?
      (byteHandler fileHandler ImageFile.access) ⟨⟨bytes, pos⟩, F, L⟩ =
        some (.done (walkFrom sb.fsInfo bytes current cs), ⟨⟨bytes, pos'⟩, F, L⟩) := by
  -- by induction on the components of the path; each call reads an inode first
  induction hp generalizing fuel depth current pos L with
  | root hparse =>
    obtain ⟨fuel, rfl⟩ : ∃ n, fuel = n + 1 := ⟨fuel - 1, by omega⟩
    obtain ⟨inode, hi, hfile | ⟨hdir, b, block, hb, hblock⟩⟩ := hwf.at hl
    · rw [walkFrom_file hi hfile (.root hparse)]
      exact run?_walkFile hi hfile himg hsb fuel depth _
    · have hkind : isDirAt sb.fsInfo bytes current = true := by
        simp only [isDirAt, hi, hdir, Bool.not_false]
      rw [walkFrom_root, if_pos hkind]
      exact run?_walkRoot hi hdir himg hsb hparse fuel depth
  | @last c hne hc hz hlen hparse =>
    obtain ⟨fuel, rfl⟩ : ∃ n, fuel = n + 1 := ⟨fuel - 1, by omega⟩
    obtain ⟨inode, hi, hfile | ⟨hdir, b, block, hb, hblock⟩⟩ := hwf.at hl
    · rw [walkFrom_file hi hfile (.last hne hc hz hlen hparse)]
      exact run?_walkFile hi hfile himg hsb fuel depth _
    · rw [walkFrom_last hne, ← Option.bind_fun_some (childOf sb.fsInfo bytes current c)]
      refine run?_walkName hi hdir hb hblock himg hsb hparse hc hz hlen fuel depth
        (fun _ => rfl) ?_
      rintro t next ⟨⟩
  | @cons c t cs hne hc hz hlen hparse hrest ih =>
    obtain ⟨fuel, rfl⟩ : ∃ n, fuel = n + 1 := ⟨fuel - 1, by omega⟩
    obtain ⟨inode, hi, hfile | ⟨hdir, b, block, hb, hblock⟩⟩ := hwf.at hl
    · rw [walkFrom_file hi hfile (.cons hne hc hz hlen hparse hrest)]
      exact run?_walkFile hi hfile himg hsb fuel depth _
    · rw [walkFrom_cons hrest.ne_nil]
      refine run?_walkName hi hdir hb hblock himg hsb hparse hc hz hlen fuel depth ?_ ?_
      · rintro ⟨⟩
      · rintro t' next ⟨⟩ hnext pos'
        apply ih pos' (hl.child hnext)
        · exact List.mem_cons_of_mem _ (List.mem_cons_of_mem _ himg)
        · exact List.mem_cons_of_mem _ (List.mem_cons_of_mem _ hsb)
        · simp only [List.length_cons, List.length_append] at hfuel ⊢
          omega

/-- What the walk comes to is an inode of the image. -/
theorem walkFrom_listed (hwf : DirectoriesWellFormed sb.fsInfo bytes)
    (hl : Listed sb.fsInfo bytes current) {path : List UInt8} {cs : List (List UInt8)}
    (hp : Parses sb.fsInfo path cs) {i : Nat}
    (hi : walkFrom sb.fsInfo bytes current cs = some i) : i < sb.fsInfo.inodesCount := by
  induction hp generalizing current with
  | root hparse =>
    rw [walkFrom_root, Option.ite_none_right_eq_some] at hi
    cases hi.2
    exact (hwf.inode _ hl).1
  | last hne hc hz hlen hparse =>
    rw [walkFrom_last hne] at hi
    exact (hwf.inode i (hl.child hi)).1
  | cons hne hc hz hlen hparse hrest ih =>
    rw [walkFrom_cons hrest.ne_nil] at hi
    obtain ⟨next, hnext, hi⟩ := Option.bind_eq_some_iff.mp hi
    exact ih (hl.child hnext) hi

/-- **Path resolution is the reference walk**: on an image with well-formed directories,
    `get_inode_id_of_dir` returns the inode the components of the path lead to, one below
    `inodes_count`, and else `inodes_count`. -/
theorem getInodeIdOfDir_walks {m : ByteMachine ImageFile} (hlt : sb.fsInfo.maxPathLen < 2 ^ 16)
    (hwf : DirectoriesWellFormed sb.fsInfo m.device.bytes) (path : CString)
    (hpath : PathFits sb.fsInfo path.bytes) (himg : .image ∈ m.live) (hsb : .superblock ∈ m.live) :
    (∃ pos', (getInodeIdOfDir path.bytes sb).run? (byteHandler fileHandler ImageFile.access) m =
      some (.done ((referenceWalk sb.fsInfo m.device.bytes path.bytes).getD sb.fsInfo.inodesCount),
        { m with device := ⟨m.device.bytes, pos'⟩ })) ∧
    ∀ i, referenceWalk sb.fsInfo m.device.bytes path.bytes = some i →
      i < sb.fsInfo.inodesCount := by
  have hp := hpath.parses hlt path.nulFree
  refine ⟨?_, fun i hi => walkFrom_listed hwf .root hp hi⟩
  obtain ⟨pos', hrun⟩ := run?_getInodeIdOfDirRec m.device.pos m.files hwf .root
    himg hsb hp (path.bytes.length + 1) 0 (Nat.lt_succ_self _)
  refine ⟨pos', ?_⟩
  have hrun' : (getInodeIdOfDirRec sb (path.bytes.length + 1) 0 path.bytes rootInodeId).run?
      (byteHandler fileHandler ImageFile.access) m = _ := hrun
  unfold getInodeIdOfDir referenceWalk
  rw [Prog.run?_bind, hrun', follow?_done]
  rcases walkFrom sb.fsInfo m.device.bytes rootInodeId (components path.bytes) with _ | i
  · rfl
  · rfl

end Program

/-! ### A small image -/

/-- A geometry with two inodes, two blocks of two records and names of up to two bytes. -/
def smallFsInfo : FsInfo := ⟨2, 2, 19, 1, 4, 0, magicNumber⟩

/-- Two directories: the root lists itself and `a`, and `a` lists itself and, as `..`, the root. -/
def smallImage : List UInt8 :=
  encodeFsInfo smallFsInfo ++ [1, 1] ++ [1, 1] ++
    [0, 0, 1, 0, 0, 0, 0] ++ [1, 0, 1, 0, 0, 1, 0] ++
    [0, 0, 0, 0, 2, 0, 0] ++ [0, 0, 46, 0, 0, 0] ++ [1, 0, 97, 0, 0, 0] ++
    [1, 0, 1, 0, 2, 0, 0] ++ [1, 0, 46, 0, 0, 0] ++ [0, 0, 46, 46, 0, 0]

/-- What the walk can come to there, and what it finds. -/
theorem smallImage_listed {i : Nat} (hl : Listed smallFsInfo smallImage i) :
    i < 2 ∧ ∃ inode block, inodeAt smallFsInfo smallImage i = some inode ∧
      firstBlockAt smallFsInfo smallImage inode = some block ∧
      ∀ r ∈ block.recordList, r.inodeId < 2 := by
  have hsmall : ∀ i < 2, ∃ inode block, inodeAt smallFsInfo smallImage i = some inode ∧
      firstBlockAt smallFsInfo smallImage inode = some block ∧
      ∀ r ∈ block.recordList, r.inodeId < 2 := by
    intro i hi
    obtain rfl | rfl : i = 0 ∨ i = 1 := by omega
    · refine ⟨⟨0, 1, false, [0]⟩, ⟨⟨0, 0, 2, 0⟩, some [⟨0, [46, 0, 0, 0]⟩, ⟨1, [97, 0, 0, 0]⟩],
        List.replicate 12 0⟩, by decide, by decide, by decide⟩
    · refine ⟨⟨1, 1, false, [1]⟩, ⟨⟨1, 1, 2, 0⟩, some [⟨1, [46, 0, 0, 0]⟩, ⟨0, [46, 46, 0, 0]⟩],
        List.replicate 12 0⟩, by decide, by decide, by decide⟩
  suffices i < 2 from ⟨this, hsmall i this⟩
  induction hl with
  | root => decide
  | @record d inode block r _ hi _ hb hr ih =>
    obtain ⟨inode', block', hi', hb', hrecords⟩ := hsmall d ih
    rw [hi] at hi'
    cases hi'
    rw [hb] at hb'
    cases hb'
    exact hrecords r hr

/-- The small image has well-formed directories. -/
theorem smallImage_wellFormed : DirectoriesWellFormed smallFsInfo smallImage where
  inode i hl := by
    obtain ⟨hlt, inode, _, hi, _⟩ := smallImage_listed hl
    exact ⟨hlt, hi ▸ rfl⟩
  block i inode hl hi _ := by
    obtain ⟨_, inode', block, hi', hb, _⟩ := smallImage_listed hl
    rw [hi] at hi'
    cases hi'
    rw [hb]
    rfl

/-- The path `/a/../a/` leads there and back, and there again. -/
theorem getInodeIdOfDir_walks_smallImage :
    ∃ pos', (getInodeIdOfDir [47, 97, 47, 46, 46, 47, 97, 47]
      ⟨smallFsInfo, [true, true], [true, true]⟩).run? (byteHandler fileHandler ImageFile.access)
        ⟨⟨smallImage, 0⟩, .onlyImage, [.superblock, .image]⟩ =
      some (.done 1, ⟨⟨smallImage, pos'⟩, .onlyImage, [.superblock, .image]⟩) := by
  have hpath : PathFits smallFsInfo [47, 97, 47, 46, 46, 47, 97, 47] :=
    ⟨rfl, by decide, by decide⟩
  have hwalk : referenceWalk smallFsInfo smallImage [47, 97, 47, 46, 46, 47, 97, 47] = some 1 := by
    decide
  obtain ⟨⟨pos', hrun⟩, -⟩ := @getInodeIdOfDir_walks ⟨smallFsInfo, [true, true], [true, true]⟩
    ⟨⟨smallImage, 0⟩, .onlyImage, [.superblock, .image]⟩ (by decide) smallImage_wellFormed
    ⟨[47, 97, 47, 46, 46, 47, 97, 47], by decide⟩ hpath (by decide) (by decide)
  refine ⟨pos', ?_⟩
  rw [hwalk] at hrun
  exact hrun

end MiniExt
