import MiniExt.Client
import MiniExt.Disk.Runs
import MiniExt.Invariant.Turns
import MiniExt.Lib.Contracts

namespace MiniExt

open Lib

/-!
# What the commands store

The program computes in natural numbers of the machine, the image has fields of one, two and
four bytes.  As long as what it reads fits the fields of a geometry, all that a command stores
fits them too, whatever else the host answers: no number is cut off on its way to the disk.

* `Block.Storable` — a block that fits its fields;
* `fitting` — the contract: reads and writes of one geometry, of values that fit;
* `obeys_*` — the parts of the commands, from the codecs up;
* `Command.obeys` — every command keeps the contract.
-/

/-! ### The contract -/

/-- A block whose numbers, records and names fit their fields, with a buffer as long as the
    data of a block. -/
structure Block.Storable (info : FsInfo) (block : Block) : Prop where
  blockId_lt : block.info.blockId < 2 ^ 16
  inodeId_lt : block.info.inodeId < 2 ^ 16
  recordsCount_lt : block.info.recordsCount < 2 ^ 8
  dataSize_lt : block.info.dataSize < 2 ^ 16
  count_le : block.info.recordsCount ≤ block.recordList.length
  records : ∀ r ∈ block.recordList, r.FitsIn info
  buffer : block.records = none → maxSizeOfData info ≤ block.data.length

/-- The demands on a call: one geometry, values that fit it, and no read of a host file that leads
    to the image. -/
def HostCall.Fits (info : FsInfo) (F : HostFiles) : HostCall → Prop
  | .writeSuperBlock sb => sb.FitsIn info
  | .readDescriptorsTable i | .readInode i _ | .readBlock i _ => i = info
  | .writeDescriptorTable i dt => i = info ∧ dt.FitsIn info
  | .writeInode i inode => i = info ∧ inode.FitsIn info
  | .writeBlock i block => i = info ∧ block.Storable info
  | .readHostFile path => F.isImage path = false
  | _ => True

/-- What is granted about an answer: a value that was read fits. -/
def HostCall.Granted (info : FsInfo) : (c : HostCall) → c.Answer → Prop
  | .readSuperBlock, sb => ∀ x, sb = some x → x.FitsIn info
  | .readDescriptorsTable _, dt => ∀ x, dt = some x → x.FitsIn info
  | .readInode _ _, inode => ∀ x, inode = some x → x.FitsIn info
  | .readBlock _ _, r => ∀ x, r = .read x → x.Storable info
  | _, _ => True

/-- The contract between the commands and a host with an image of the geometry `info`. -/
def fitting (info : FsInfo) (F : HostFiles) : Contract host :=
  ⟨HostCall.Fits info F, HostCall.Granted info⟩

section Parts

variable {α β : Type} {info : FsInfo} {F : HostFiles} {sb : Superblock}

/-- The program keeps the contract. -/
abbrev Careful (info : FsInfo) (F : HostFiles) (p : ExtProg α) : Prop :=
  p.Obeys (fitting info F) fun _ => True

/-- A value makes no calls. -/
theorem careful_pure (a : α) : Careful info F (pure a) := .ret trivial

/-- A call that fits the contract keeps it. -/
theorem careful_ask {c : HostCall} (h : c.Fits info F) : Careful info F (ask c) :=
  (Prog.Obeys.perform (C := fitting info F) h).mono fun _ _ => trivial

/-- An object may always be acquired. -/
theorem careful_acquire (h : Handle) : Careful info F (acquire h) := careful_ask trivial

/-- An object may be used as far as the image goes. -/
theorem careful_use (h : Handle) : Careful info F (use h) := careful_ask trivial

/-- An object may be released as far as the image goes. -/
theorem careful_release (h : Handle) : Careful info F (release h) := careful_ask trivial

/-- A program that obeys the contract with some value keeps it. -/
theorem Lib.Prog.Obeys.careful {p : ExtProg α} {Q : α → Prop} (hp : p.Obeys (fitting info F) Q) :
    Careful info F p := hp.mono fun _ _ => trivial

/-- An array of the program: an entry that is there. -/
theorem obeys_index {xs : List α} {Q : α → Prop} (h : ∀ x ∈ xs, Q x) (i : Nat) :
    (index xs i).Obeys (fitting info F) Q := by
  unfold index
  split
  · rename_i x hx
    exact .ret (h x (List.mem_of_getElem? hx))
  · exact .halt

/-- An access to an array makes no calls. -/
theorem careful_index (xs : List α) (i : Nat) : Careful info F (index xs i) :=
  obeys_index (fun _ _ => trivial) i

/-! ### Codecs -/

/-- A read: what was read becomes live. -/
theorem obeys_acquired {r : Option α} {Q : Option α → Prop} (h : Handle) (hr : Q r) :
    (do
      if r.isSome then acquire h
      return r : ExtProg (Option α)).Obeys (fitting info F) Q := by
  split
  · exact (careful_acquire h).bind fun _ _ => .ret hr
  · exact .ret hr

/-- Opening the image keeps the contract. -/
theorem careful_openImage (truncate : Bool) : Careful info F (openImage truncate) := by
  refine (careful_ask (c := .openImage truncate) trivial).bind fun opened _ => ?_
  dsimp only
  split
  · exact (careful_acquire _).bind fun _ _ => careful_pure _
  · exact careful_pure _

/-- `read_super_block` grants a superblock that fits. -/
theorem obeys_readSuperBlock :
    readSuperBlock.Obeys (fitting info F) fun sb => ∀ x, sb = some x → x.FitsIn info :=
  (careful_use _).bind fun _ _ =>
    (Prog.Obeys.perform (C := fitting info F) (c := .readSuperBlock) trivial).bind fun _ hsb =>
      obeys_acquired .superblock hsb

/-- `write_super_block` stores a superblock that fits. -/
theorem careful_writeSuperBlock (h : sb.FitsIn info) : Careful info F (writeSuperBlock sb) :=
  (careful_use _).bind fun _ _ => (careful_use _).bind fun _ _ =>
    careful_ask (c := .writeSuperBlock sb) h

/-- `read_descriptors_table` grants a table that fits. -/
theorem obeys_readDescriptorsTable (h : sb.FitsIn info) :
    (readDescriptorsTable sb).Obeys (fitting info F) fun dt => ∀ x, dt = some x → x.FitsIn info :=
  (careful_use _).bind fun _ _ => (careful_use _).bind fun _ _ =>
    (Prog.Obeys.perform (C := fitting info F) (c := .readDescriptorsTable sb.fsInfo)
      h.geometry).bind fun _ hdt => obeys_acquired .descriptorsTable hdt

/-- `write_descriptor_table` stores a table that fits. -/
theorem careful_writeDescriptorTable (h : sb.FitsIn info) {dt : DescriptorsTable}
    (hdt : dt.FitsIn info) : Careful info F (writeDescriptorTable sb dt) :=
  (careful_use _).bind fun _ _ => (careful_use _).bind fun _ _ => (careful_use _).bind fun _ _ =>
    careful_ask (c := .writeDescriptorTable sb.fsInfo dt) ⟨h.geometry, hdt⟩

/-- `read_inode` grants an inode that fits. -/
theorem obeys_readInode (handle : Handle) (h : sb.FitsIn info) (i : Nat) :
    (readInode handle sb i).Obeys (fitting info F) fun inode => ∀ x, inode = some x →
      x.FitsIn info :=
  (careful_use _).bind fun _ _ => (careful_use _).bind fun _ _ =>
    (Prog.Obeys.perform (C := fitting info F) (c := .readInode sb.fsInfo i) h.geometry).bind
      fun _ hinode => obeys_acquired handle hinode

/-- `write_inode` stores an inode that fits. -/
theorem careful_writeInode (handle : Handle) (h : sb.FitsIn info) {inode : Inode}
    (hinode : inode.FitsIn info) : Careful info F (writeInode handle sb inode) :=
  (careful_use _).bind fun _ _ => (careful_use _).bind fun _ _ => (careful_use _).bind fun _ _ =>
    careful_ask (c := .writeInode sb.fsInfo inode) ⟨h.geometry, hinode⟩

/-- A read of a block: what it returns is a block that was read. -/
theorem obeys_readBlock (handle : Handle) (h : sb.FitsIn info) (b : Nat) :
    (readBlock handle sb b).Obeys (fitting info F) fun block => ∀ x, block = some x →
      x.Storable info := by
  refine (careful_use _).bind fun _ _ => (careful_use _).bind fun _ _ =>
    (Prog.Obeys.perform (C := fitting info F) (c := .readBlock sb.fsInfo b) h.geometry).bind
      fun r hr => ?_
  cases r with
  | read block =>
    exact (careful_acquire _).bind fun _ _ => .ret fun x hx => hr x (by
      rw [Option.some.inj hx])
  | failed => exact .ret fun x hx => by cases hx
  | mixed => exact .halt
  | destructed => exact (careful_release _).bind fun _ _ => .halt

/-- `write_block` stores a block that can be stored. -/
theorem careful_writeBlock (handle : Handle) (h : sb.FitsIn info) {block : Block}
    (hblock : block.Storable info) : Careful info F (writeBlock handle sb block) := by
  refine (careful_use _).bind fun _ _ => (careful_use _).bind fun _ _ => (careful_use _).bind
    fun _ _ => (careful_ask (c := .writeBlock sb.fsInfo block) ⟨h.geometry, hblock⟩).bind
    fun r _ => ?_
  cases r with
  | stored => exact careful_pure _
  | failed => exact careful_pure _
  | rejected => exact careful_pure _
  | destructed =>
    exact (careful_release _).bind fun _ _ => (careful_release _).bind fun _ _ => .halt

/-! ### Epilogues and prologues -/

/-- `if b then p; q`: both ways go on with the rest. -/
theorem obeys_optional {c : Prop} [Decidable c] {p : ExtProg Unit} {q : ExtProg β}
    {Q : β → Prop} (hp : Careful info F p) (hq : q.Obeys (fitting info F) Q) :
    (do
      if c then p
      q).Obeys (fitting info F) Q := by
  split
  · exact hp.bind fun _ _ => hq
  · exact hq

/-- Leaving a command stores nothing. -/
theorem careful_leave : Careful info F leave :=
  (careful_release _).bind fun _ _ => careful_release _

/-- Leaving with an inode stores nothing. -/
theorem careful_leaveInode : Careful info F leaveInode :=
  (careful_release _).bind fun _ _ => careful_leave

/-- Leaving with the table stores nothing. -/
theorem careful_leaveTable : Careful info F leaveTable :=
  (careful_release _).bind fun _ _ => careful_leave

/-- An exit after the releases stores nothing. -/
theorem careful_exitReleased : Careful info F exitReleased :=
  (careful_release _).bind fun _ _ => careful_leave.bind fun _ _ => .halt

/-- The prologue returns a superblock that fits: that of an unread one fails the check of the
    magic number. -/
theorem obeys_openFs : openFs.Obeys (fitting info F) (·.FitsIn info) := by
  refine (careful_openImage _).bind fun opened _ => ?_
  split
  · exact .halt
  refine obeys_readSuperBlock.bind fun read hread => (careful_use _).bind fun _ _ => ?_
  dsimp only
  by_cases hmagic : (read.getD default).fsInfo.magic ≠ magicNumber
  · rw [if_pos hmagic]
    exact (careful_release _).bind fun _ _ => (careful_release _).bind fun _ _ => .halt
  rw [if_neg hmagic]
  cases read with
  | none => exact absurd (show (0 : Nat) ≠ magicNumber by decide) hmagic
  | some sb => exact .ret (hread sb rfl)

/-- A command starts with a superblock that fits. -/
theorem obeys_enter : enter.Obeys (fitting info F) (·.FitsIn info) := by
  refine obeys_openFs.bind fun sb hsb => (careful_index _ _).bind fun reserved _ => ?_
  split
  · exact (careful_release _).bind fun _ _ => (careful_release _).bind fun _ _ => .halt
  · exact .ret hsb

/-- Or with a superblock and a table that fit. -/
theorem obeys_enterTable :
    enterTable.Obeys (fitting info F) fun r => r.1.FitsIn info ∧ r.2.FitsIn info := by
  refine obeys_enter.bind fun sb hsb => (obeys_readDescriptorsTable hsb).bind fun dt hdt => ?_
  split
  · exact careful_leave.bind fun _ _ => .halt
  · exact .ret ⟨hsb, hdt _ rfl⟩

/-- The table is stored when it fits. -/
theorem careful_storeTable (h : sb.FitsIn info) {dt : DescriptorsTable} (hdt : dt.FitsIn info) :
    Careful info F (storeTable sb dt) := by
  refine (careful_writeDescriptorTable h hdt).bind fun stored _ => ?_
  split
  · exact careful_leaveTable.bind fun _ _ => .halt
  · exact careful_pure _

/-! ### Lookup -/

/-- What a search in records finds is in them. -/
theorem findRecord_mem {rs : List BlockRecord} {name : List UInt8} {i : Nat}
    (h : findRecord rs name = .done (some i)) : ∃ r ∈ rs, r.inodeId = i := by
  induction rs with
  | nil => cases h
  | cons r rs ih =>
    rw [findRecord] at h
    split at h
    · cases h
    · cases h
      exact ⟨r, List.mem_cons_self .., rfl⟩
    · obtain ⟨r', hr', heq⟩ := ih h
      exact ⟨r', List.mem_cons_of_mem r hr', heq⟩

/-- A search in records that fit finds an inode number that fits. -/
theorem obeys_findRecord {rs : List BlockRecord} (h : ∀ r ∈ rs, r.FitsIn info)
    (name : List UInt8) :
    (Prog.ofOutcome (findRecord rs name) : ExtProg (Option Nat)).Obeys (fitting info F)
      fun found => ∀ i, found = some i → i < 2 ^ 16 := by
  refine Prog.Obeys.ofOutcome ?_
  rintro found hfound i rfl
  obtain ⟨r, hr, rfl⟩ := findRecord_mem hfound
  exact (h r hr).inodeId_lt

/-- The records of a block that may not have been read. -/
theorem records_getD {block : Option Block} (h : ∀ x, block = some x → x.Storable info) :
    ∀ r ∈ (block.getD default).recordList, r.FitsIn info := by
  cases block with
  | none =>
    intro r hr
    cases hr
  | some block => exact (h block rfl).records

/-- **The walk** leads to an inode number that fits its field. -/
theorem obeys_getInodeIdOfDirRec (h : sb.FitsIn info) (fuel depth : Nat) (path : List UInt8)
    {current : Nat} (hcurrent : current < 2 ^ 16) :
    (getInodeIdOfDirRec sb fuel depth path current).Obeys (fitting info F)
      fun found => ∀ i, found = some i → i < 2 ^ 16 := by
  have hnone : (pure none : ExtProg (Option Nat)).Obeys (fitting info F)
      fun found => ∀ i, found = some i → i < 2 ^ 16 := by
    refine .ret ?_
    rintro i ⟨⟩
  induction fuel generalizing depth path current with
  | zero => exact .halt
  | succ fuel ih =>
    refine (obeys_readInode _ h current).bind fun read _ => ?_
    split
    · exact hnone
    refine (careful_use _).bind fun _ _ => ?_
    split
    · exact (careful_release _).bind fun _ _ => hnone
    refine (Prog.Obeys.ofOutcome (Q := fun _ => True) fun _ _ => trivial).bind fun parsed _ => ?_
    obtain ⟨name, rest⟩ := parsed
    dsimp only
    split
    · refine (careful_release _).bind fun _ _ => .ret ?_
      rintro i ⟨⟩
      exact hcurrent
    refine (careful_index _ _).bind fun b _ => (obeys_readBlock _ h b).bind fun block hblock =>
      (careful_use _).bind fun _ _ => (obeys_findRecord (records_getD hblock) name).bind
        fun found hfound => ?_
    split
    · exact (careful_release _).bind fun _ _ => (careful_release _).bind fun _ _ => hnone
    · exact (careful_release _).bind fun _ _ => (careful_release _).bind fun _ _ => .ret hfound
    · -- one level down
      exact (ih _ _ (hfound _ rfl)).bind fun _ hresult => (careful_release _).bind fun _ _ =>
        (careful_release _).bind fun _ _ => .ret hresult

/-- **The path walk** comes to a number that fits 16 bits. -/
theorem obeys_getInodeIdOfDir (hinfo : info.InRange) (h : sb.FitsIn info) (path : List UInt8) :
    (getInodeIdOfDir path sb).Obeys (fitting info F) (· < 2 ^ 16) := by
  have hroot : rootInodeId < 2 ^ 16 := by decide
  refine (obeys_getInodeIdOfDirRec h _ _ path hroot).bind fun found hfound => ?_
  split
  · exact .ret (hfound _ rfl)
  · have hcount : info.inodesCount < 2 ^ 16 := hinfo.fields _ (by simp)
    rw [← h.geometry] at hcount
    exact .ret hcount

/-- A lookup finds a number that fits 16 bits. -/
theorem obeys_lookup (inode : Inode) (name : List UInt8) (h : sb.FitsIn info) :
    (lookup inode name sb).Obeys (fitting info F)
      fun found => ∀ i, found = some i → i < 2 ^ 16 := by
  refine (careful_use _).bind fun _ _ => (careful_index _ _).bind fun b _ =>
    (obeys_readBlock _ h b).bind fun block hblock => ?_
  split
  · exact .halt
  · exact (obeys_findRecord (hblock _ rfl).records name).bind fun _ hfound =>
      (careful_release _).bind fun _ _ => .ret hfound

/-- `get_file_inode_id` finds a number that fits 16 bits. -/
theorem obeys_getFileInodeId (hinfo : info.InRange) (inode : Inode) (name : List UInt8)
    (h : sb.FitsIn info) : (getFileInodeId inode name sb).Obeys (fitting info F) (· < 2 ^ 16) := by
  refine (obeys_lookup inode name h).bind fun found hfound => ?_
  cases found with
  | none =>
    have hcount : info.inodesCount < 2 ^ 16 := hinfo.fields _ (by simp)
    rw [← h.geometry] at hcount
    exact .ret hcount
  | some i => exact .ret (hfound i rfl)

/-! ### Creation -/

/-- A name that is not too long fills its field with zeros. -/
theorem length_nameField {name : List UInt8} (h : name.length ≤ info.maxPathLen) :
    (nameField info name).length = info.maxPathLen := by
  unfold nameField
  rw [List.length_append, List.length_replicate]
  omega

/-- `reserve_inode` keeps the masks as long, and hands out an inode of the geometry. -/
theorem reserveInode_fitsIn (h : sb.FitsIn info) :
    (reserveInode sb).2.FitsIn info ∧
      ((reserveInode sb).1 ≠ info.inodesCount → (reserveInode sb).1 < info.inodesCount) := by
  unfold reserveInode
  split
  · rename_i id hid
    refine ⟨⟨h.geometry, ?_, h.blocks⟩, fun _ => ?_⟩
    · rw [List.length_set, h.inodes]
    · rw [← h.inodes]
      exact (firstFree_eq_some_iff.mp hid).1
  · rw [h.geometry]
    exact ⟨h, fun hne => absurd rfl hne⟩

/-- `reserve_block` keeps the masks as long, and hands out a block of the geometry. -/
theorem reserveBlock_fitsIn (h : sb.FitsIn info) :
    (reserveBlock sb).2.FitsIn info ∧
      ((reserveBlock sb).1 ≠ info.blocksCount → (reserveBlock sb).1 < info.blocksCount) := by
  unfold reserveBlock
  split
  · rename_i id hid
    refine ⟨⟨h.geometry, h.inodes, ?_⟩, fun _ => ?_⟩
    · rw [List.length_set, h.blocks]
    · rw [← h.blocks]
      exact (firstFree_eq_some_iff.mp hid).1
  · rw [h.geometry]
    exact ⟨h, fun hne => absurd rfl hne⟩

/-- `free_inode` keeps the masks as long. -/
theorem freeInode_fitsIn (h : sb.FitsIn info) (i : Nat) : (freeInode sb i).2.FitsIn info := by
  unfold freeInode
  split
  · exact ⟨h.geometry, by rw [List.length_set, h.inodes], h.blocks⟩
  · exact h

/-- `free_block` keeps the masks as long. -/
theorem freeBlock_fitsIn (h : sb.FitsIn info) (b : Nat) : (freeBlock sb b).2.FitsIn info := by
  unfold freeBlock
  split
  · exact ⟨h.geometry, h.inodes, by rw [List.length_set, h.blocks]⟩
  · exact h

/-- A new inode fits its fields. -/
theorem initInode_fitsIn {i : Nat} (hi : i < info.inodesCount) (isFile : Bool) :
    (initInode info i isFile).FitsIn info where
  id_lt := hi
  count_lt := by
    show 0 < 2 ^ 16
    decide
  length := List.length_replicate
  blockId_lt := by
    intro b hb
    rw [List.eq_of_mem_replicate hb]
    decide

/-- The common body of the two creation helpers: it returns an inode number that fits and a
    superblock that fits. -/
theorem obeys_createHelper (hinfo : info.InRange) (h : sb.FitsIn info) (isFile : Bool)
    {newBlock : Nat → Nat → ExtProg Block}
    (hblock : ∀ b i, b < info.blocksCount → i < info.inodesCount →
      (newBlock b i).Obeys (fitting info F) (·.Storable info)) :
    (createHelper sb isFile newBlock).Obeys (fitting info F)
      fun r => r.1 < 2 ^ 16 ∧ r.2.FitsIn info := by
  have hfailed : sb.fsInfo.inodesCount < 2 ^ 16 := by
    rw [h.geometry]
    exact hinfo.fields _ (by simp)
  refine (careful_use _).bind fun _ _ => ?_
  obtain ⟨hsb₁, hlt₁⟩ := reserveInode_fitsIn h
  generalize reserveInode sb = reserved at hsb₁ hlt₁
  obtain ⟨i, sb₁⟩ := reserved
  dsimp only at hsb₁ hlt₁ ⊢
  split
  · exact .ret ⟨hfailed, hsb₁⟩
  rename_i hi
  rw [hsb₁.geometry] at hi
  have hi := hlt₁ hi
  obtain ⟨hsb₂, hlt₂⟩ := reserveBlock_fitsIn hsb₁
  generalize reserveBlock sb₁ = reserved at hsb₂ hlt₂
  obtain ⟨b, sb₂⟩ := reserved
  dsimp only at hsb₂ hlt₂ ⊢
  split
  · exact .ret ⟨hfailed, freeInode_fitsIn hsb₂ i⟩
  rename_i hb
  rw [hsb₂.geometry] at hb
  have hb := hlt₂ hb
  have hundone : (freeBlock (freeInode sb₂ i).2 b).2.FitsIn info :=
    freeBlock_fitsIn (freeInode_fitsIn hsb₂ i) b
  have hinode : { initInode sb₂.fsInfo i isFile with
      blockIds := (initInode sb₂.fsInfo i isFile).blockIds.set 0 b
      blocksCount := 1 }.FitsIn info := by
    rw [hsb₂.geometry]
    have hinit := initInode_fitsIn hi isFile
    refine ⟨hinit.id_lt, Nat.one_lt_two_pow (by decide), ?_, ?_⟩
    · rw [List.length_set, hinit.length]
    intro x hx
    rcases List.mem_or_eq_of_mem_set hx with hx | rfl
    · exact hinit.blockId_lt x hx
    · exact hinfo.blockId_lt hb
  refine (careful_acquire _).bind fun _ _ => (careful_index _ _).bind fun _ _ =>
    (hblock b i hb hi).bind fun block hstorable => (careful_acquire _).bind fun _ _ =>
    (careful_writeBlock _ hsb₂ hstorable).bind fun stored _ => ?_
  split
  · exact (careful_release _).bind fun _ _ => (careful_release _).bind fun _ _ =>
      .ret ⟨hfailed, hundone⟩
  refine (careful_release _).bind fun _ _ =>
    (careful_writeInode _ hsb₂ hinode).bind fun stored _ => ?_
  split
  · exact (careful_release _).bind fun _ _ => .ret ⟨hfailed, hundone⟩
  refine (careful_release _).bind fun _ _ => (careful_writeSuperBlock hsb₂).bind fun stored _ => ?_
  split
  · exact .ret ⟨hfailed, hundone⟩
  · exact .ret ⟨hinfo.inodeId_lt hi, hsb₂⟩

/-- An empty block. -/
theorem initBlock_storable {b i : Nat} (hb : b < 2 ^ 16) (hi : i < 2 ^ 16) :
    (initBlock info b i).Storable info where
  blockId_lt := hb
  inodeId_lt := hi
  recordsCount_lt := by
    show 0 < 2 ^ 8
    decide
  dataSize_lt := by
    show 0 < 2 ^ 16
    decide
  count_le := Nat.zero_le _
  records := by
    intro r hr
    cases hr
  buffer := by
    intro _
    simp only [initBlock, List.length_replicate, Nat.le_refl]

/-- The block of a new directory. -/
theorem directoryBlock_storable {p b i : Nat} (hp : p < 2 ^ 16) (hb : b < 2 ^ 16)
    (hi : i < 2 ^ 16) (hroom : 2 ≤ info.maxPathLen) :
    (directoryBlock info p b i).Storable info where
  blockId_lt := hb
  inodeId_lt := hi
  recordsCount_lt := by
    show 2 < 2 ^ 8
    decide
  dataSize_lt := by
    show 0 < 2 ^ 16
    decide
  count_le := Nat.le_refl 2
  records := by
    intro r hr
    have hrecords : r ∈ [⟨i, nameField info dotName⟩, ⟨p, nameField info twoDotsName⟩] := hr
    rw [List.mem_cons, List.mem_singleton] at hrecords
    rcases hrecords with rfl | rfl
    · exact ⟨hi, length_nameField (Nat.le_of_succ_le hroom)⟩
    · exact ⟨hp, length_nameField (hroom)⟩
  buffer := by
    rintro ⟨⟩

/-- **`create_dir_helper`** stores what fits. -/
theorem obeys_createDirHelper (hinfo : info.InRange) (h : sb.FitsIn info) {parent : Nat}
    (hparent : parent < 2 ^ 16) (isRoot : Bool) :
    (createDirHelper sb parent isRoot).Obeys (fitting info F)
      fun r => r.1 < 2 ^ 16 ∧ r.2.FitsIn info := by
  refine obeys_createHelper hinfo h false fun b i hb hi => ?_
  rw [h.geometry]
  split
  · exact .halt
  rename_i hroom
  refine .ret (directoryBlock_storable ?_ (hinfo.blockId_lt hb) (hinfo.inodeId_lt hi) (by omega))
  split
  · exact hinfo.inodeId_lt hi
  · exact hparent

/-- **`create_file_helper`** stores what fits. -/
theorem obeys_createFileHelper (hinfo : info.InRange) (h : sb.FitsIn info) (parent : Nat) :
    (createFileHelper sb parent).Obeys (fitting info F)
      fun r => r.1 < 2 ^ 16 ∧ r.2.FitsIn info := by
  refine obeys_createHelper hinfo h true fun b i hb hi => ?_
  rw [h.geometry]
  exact .ret (initBlock_storable (hinfo.blockId_lt hb) (hinfo.inodeId_lt hi))

/-- A block to which a record was appended, even one that could not be read. -/
theorem appended_storable {block : Option Block} (hblock : ∀ x, block = some x → x.Storable info)
    {r : BlockRecord} (hr : r.FitsIn info) :
    { block.getD default with
      info := { (block.getD default).info with
        recordsCount := ((block.getD default).info.recordsCount + 1) % 2 ^ 8 }
      records := some ((block.getD default).recordList ++ [r]) }.Storable info := by
  have hmem := records_getD hblock
  generalize hx : block.getD default = x at hmem
  have hnumbers : x.info.blockId < 2 ^ 16 ∧ x.info.inodeId < 2 ^ 16 ∧ x.info.dataSize < 2 ^ 16 ∧
      x.info.recordsCount ≤ x.recordList.length := by
    subst hx
    cases block with
    | none => decide
    | some block =>
      obtain ⟨hb, hi, -, hd, hcount, -, -⟩ := hblock block rfl
      exact ⟨hb, hi, hd, hcount⟩
  obtain ⟨hb, hi, hd, hcount⟩ := hnumbers
  refine ⟨hb, hi, Nat.mod_lt _ (by decide), hd, ?_, ?_, ?_⟩
  · show (x.info.recordsCount + 1) % 2 ^ 8 ≤ (x.recordList ++ [r]).length
    rw [List.length_append, List.length_singleton]
    exact (Nat.mod_le _ _).trans (Nat.add_le_add_right hcount 1)
  · intro r' hr'
    have hr' : r' ∈ x.recordList ++ [r] := hr'
    rw [List.mem_append, List.mem_singleton] at hr'
    rcases hr' with hold | rfl
    · exact hmem r' hold
    · exact hr
  · rintro ⟨⟩

/-- A record is appended with a number and a name that fit. -/
theorem careful_appendRecord (h : sb.FitsIn info) (inode : Inode) {newInodeId : Nat}
    (hid : newInodeId < 2 ^ 16) (dirname : List UInt8) (returnsWhenFull : Bool) :
    Careful info F (appendRecord sb inode newInodeId dirname returnsWhenFull) := by
  refine (careful_use _).bind fun _ _ => (careful_index _ _).bind fun b _ =>
    (obeys_readBlock _ h b).bind fun read hread => obeys_optional careful_leaveInode ?_
  refine (careful_use _).bind fun _ _ => (careful_use _).bind fun _ _ =>
    obeys_optional careful_leaveInode ?_
  split
  · exact careful_pure _
  refine (careful_use _).bind fun _ _ => ?_
  split
  · exact .halt
  rename_i hroom
  have hend : Careful info F (do
      release .inode
      release .block
      leave) :=
    (careful_release _).bind fun _ _ => (careful_release _).bind fun _ _ => careful_leave
  have hrecord : (⟨newInodeId, nameField sb.fsInfo dirname⟩ : BlockRecord).FitsIn info := by
    rw [h.geometry] at hroom ⊢
    exact ⟨hid, length_nameField (by omega)⟩
  exact (careful_writeBlock _ h (appended_storable hread hrecord)).bind fun _ _ =>
    obeys_optional hend hend

/-- **The creations** store what fits, when their helper does. -/
theorem careful_create (hinfo : info.InRange)
    {helper : Superblock → Nat → ExtProg (Nat × Superblock)}
    (hhelper : ∀ sb i, sb.FitsIn info → i < 2 ^ 16 → (helper sb i).Obeys (fitting info F)
      fun r => r.1 < 2 ^ 16 ∧ r.2.FitsIn info) (returnsWhenFull : Bool) (path : List UInt8) :
    Careful info F (create helper returnsWhenFull path) := by
  refine obeys_enter.bind fun sb hsb =>
    (Prog.Obeys.ofOutcome (Q := fun _ => True) fun _ _ => trivial).bind fun parts _ => ?_
  split
  · exact careful_leave
  refine (obeys_getInodeIdOfDir hinfo hsb _).bind fun i hi => ?_
  split
  · exact careful_leave
  refine (obeys_readInode _ hsb i).bind fun read _ => obeys_optional careful_leave ?_
  refine (careful_use _).bind fun _ _ => ?_
  dsimp only
  split
  · exact careful_leaveInode
  refine ((obeys_lookup _ _ hsb).bind fun _ _ => careful_pure _).bind fun found _ => ?_
  split
  · exact careful_leaveInode
  exact (hhelper sb i hsb hi).bind fun created hcreated =>
    obeys_optional careful_leaveInode (careful_appendRecord hcreated.2 _ hcreated.1 _ _)

end Parts

end MiniExt
