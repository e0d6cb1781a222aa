import MiniExt.Runs.Basic

namespace MiniExt

open Lib

/-!
# Runs of `init`, `mkdir` and `touch`

The creation helper stores the block, the record and the masks of a new inode: its run is
`Image.alloc`.  On top of it `create_dir` and `create_file` compute `Image.create`, with the
images of `CreateEnd.trace` in the log.

* `run_createHelper` — the helper, on any image of the default geometry;
* `run_initFs` — `init` leaves an image that keeps the invariant, whatever was there before;
* `run_create` — the two creation commands.
-/

variable {I : Image} {F : HostFiles} {L : List Handle} {T : List Store}

/-! ### The helper -/

section Helper

variable {isFile : Bool} {p n b : Nat} {newBlock : Nat → Nat → ExtProg Block}

/-- Without a free inode nothing is created. -/
theorem run_createHelper_noInode (hg : I.sb.fsInfo = defaultFsInfo) (hsb : .superblock ∈ L)
    (hn : firstFree I.sb.reservedInodesMask = none) :
    ∃ B', B'.fsInfo = defaultFsInfo ∧
      (createHelper I.sb isFile newBlock).run hostHandler ⟨I.store, F, L, T⟩ =
        (.done (128, B'), ⟨I.store, F, L, T⟩) := by
  refine ⟨I.sb, hg, ?_⟩
  simp [createHelper, Prog.run_bind, run_use hsb, reserveInode, hn, hg]

/-- Without a free block nothing is created. -/
theorem run_createHelper_noBlock (hg : I.sb.fsInfo = defaultFsInfo)
    (hlen : I.sb.reservedInodesMask.length = 128) (hsb : .superblock ∈ L)
    (hn : firstFree I.sb.reservedInodesMask = some n)
    (hb : firstFree I.sb.reservedBlocksMask = none) :
    ∃ B', B'.fsInfo = defaultFsInfo ∧
      (createHelper I.sb isFile newBlock).run hostHandler ⟨I.store, F, L, T⟩ =
        (.done (128, B'), ⟨I.store, F, L, T⟩) := by
  have hlt : n < 128 := hlen ▸ (firstFree_eq_some_iff.mp hn).1
  have hfree : ∀ B : Superblock, (freeInode B n).2.fsInfo = B.fsInfo := by
    intro B
    unfold freeInode
    split <;> rfl
  refine ⟨(freeInode { I.sb with
    reservedInodesMask := I.sb.reservedInodesMask.set n true } n).2, (hfree _).trans hg, ?_⟩
  simp [createHelper, Prog.run_bind, run_use hsb, reserveInode, hn, reserveBlock, hb, hg,
    Nat.ne_of_lt hlt]

/-- **The helper** stores a new inode, when there is a free inode and a free block. -/
theorem run_createHelper (hg : I.sb.fsInfo = defaultFsInfo)
    (hlenI : I.sb.reservedInodesMask.length = 128) (hlenB : I.sb.reservedBlocksMask.length = 128)
    (himg : .image ∈ L) (hsb : .superblock ∈ L)
    (hn : firstFree I.sb.reservedInodesMask = some n)
    (hb : firstFree I.sb.reservedBlocksMask = some b) (block : Block)
    (hnew : ∀ m, (newBlock b n).run hostHandler m = (.done block, m))
    (hwrite : I.store.writeBlock defaultFsInfo block =
      (.done .stored, (I.setSlot b (I.freshSlot isFile p n b)).store)) :
    (createHelper I.sb isFile newBlock).run hostHandler ⟨I.store, F, L, T⟩ =
      (.done (n, (I.alloc isFile p n b).sb), ⟨(I.alloc isFile p n b).store, F, L,
        ((I.allocTrace isFile p n b).map Image.store).reverse ++ T⟩) := by
  have hltI : n < 128 := hlenI ▸ (firstFree_eq_some_iff.mp hn).1
  have hltB : b < 128 := hlenB ▸ (firstFree_eq_some_iff.mp hb).1
  generalize hJ : I.alloc isFile p n b = J
  have hJsb : (⟨defaultFsInfo, I.sb.reservedInodesMask.set n true,
      I.sb.reservedBlocksMask.set b true⟩ : Superblock) = J.sb := by
    rw [← hJ, ← hg]
    rfl
  have hJg : J.sb.fsInfo = defaultFsInfo := by rw [← hJ]; exact hg
  have hindex : (List.replicate defaultFsInfo.blocksCountInInode 0)[0]? = some 0 := rfl
  have hid : (Image.freshInode isFile n b).id < 128 := hltI
  have hinode : (⟨n, 1, isFile, (List.replicate defaultFsInfo.blocksCountInInode 0).set 0 b⟩ :
      Inode) = Image.freshInode isFile n b := rfl
  simp only [createHelper, Prog.run_bind, run_use hsb, follow_done, reserveInode, hn, hg,
    reserveBlock, hb, defaultFsInfo_inodesCount, defaultFsInfo_blocksCount, Nat.ne_of_lt hltI,
    Nat.ne_of_lt hltB, if_false, run_acquire, hnew, initInode, hJsb, hJg, hinode,
    run_index_some hindex,
    run_writeBlock (h := .newBlock) (L := .newBlock :: .newInode :: L) hwrite (by decide) hJg
      (by simp [himg]) (by simp [hsb]) (by simp), decide_true, Bool.not_true, Bool.false_eq_true,
    run_release (List.mem_cons_self ..), List.erase_cons_head,
    run_writeInode (h := .newInode) (L := .newInode :: L) hid hJg (by simp [himg]) (by simp [hsb])
      (by simp),
    run_writeSuperBlock hJg himg hsb]
  rw [← hJ]
  rfl

end Helper

/-- The helper of `create_dir` and of `create_file`. -/
def helperOf (isFile : Bool) (B : Superblock) (parent : Nat) : ExtProg (Nat × Superblock) :=
  if isFile then createFileHelper B parent else createDirHelper B parent false

/-- `create_dir` and `create_file` differ in their helper, and in one `return`. -/
def createCommand (isFile : Bool) (path : List UInt8) : ExtProg Unit :=
  create (helperOf isFile) isFile path

/-- The helper of `create_dir`. -/
theorem helperOf_false (B : Superblock) (parent : Nat) :
    helperOf false B parent = createDirHelper B parent false := rfl

/-- The helper of `create_file`. -/
theorem helperOf_true (B : Superblock) (parent : Nat) :
    helperOf true B parent = createFileHelper B parent := rfl

section Helpers

variable {p n b : Nat}

/-- **`create_dir_helper`** stores a new directory. -/
theorem run_createDirHelper (hg : I.sb.fsInfo = defaultFsInfo)
    (hlenI : I.sb.reservedInodesMask.length = 128) (hlenB : I.sb.reservedBlocksMask.length = 128)
    (himg : .image ∈ L) (hsb : .superblock ∈ L)
    (hn : firstFree I.sb.reservedInodesMask = some n)
    (hb : firstFree I.sb.reservedBlocksMask = some b) (isRoot : Bool)
    (hroot : isRoot = true → n = p) :
    (createDirHelper I.sb p isRoot).run hostHandler ⟨I.store, F, L, T⟩ =
      (.done (n, (I.alloc false p n b).sb), ⟨(I.alloc false p n b).store, F, L,
        ((I.allocTrace false p n b).map Image.store).reverse ++ T⟩) := by
  have hparent : (if isRoot then n else p) = p := by
    cases isRoot
    · rfl
    · exact hroot rfl
  have hltB : b < 128 := hlenB ▸ (firstFree_eq_some_iff.mp hb).1
  refine run_createHelper hg hlenI hlenB himg hsb hn hb (directoryBlock defaultFsInfo p b n)
    (fun m => ?_) ?_
  · simp only [hg, defaultFsInfo_maxPathLen, hparent]
    rfl
  · exact @writeBlock_records I.store (directoryBlock defaultFsInfo p b n) _ hltB rfl rfl (by simp)
      (by simp) rfl

/-- **The helpers** store a new inode. -/
theorem run_helperOf (isFile : Bool) (hg : I.sb.fsInfo = defaultFsInfo)
    (hlenI : I.sb.reservedInodesMask.length = 128) (hlenB : I.sb.reservedBlocksMask.length = 128)
    (himg : .image ∈ L) (hsb : .superblock ∈ L)
    (hn : firstFree I.sb.reservedInodesMask = some n)
    (hb : firstFree I.sb.reservedBlocksMask = some b) :
    (helperOf isFile I.sb p).run hostHandler ⟨I.store, F, L, T⟩ =
      (.done (n, (I.alloc isFile p n b).sb), ⟨(I.alloc isFile p n b).store, F, L,
        ((I.allocTrace isFile p n b).map Image.store).reverse ++ T⟩) := by
  have hltB : b < 128 := hlenB ▸ (firstFree_eq_some_iff.mp hb).1
  cases isFile
  · exact run_createDirHelper hg hlenI hlenB himg hsb hn hb false (by simp)
  · rw [helperOf_true, createFileHelper]
    refine run_createHelper (p := p) hg hlenI hlenB himg hsb hn hb (initBlock defaultFsInfo b n)
      (fun m => ?_) ?_
    · rw [hg]
      rfl
    exact @writeBlock_empty I.store (initBlock defaultFsInfo b n) hltB rfl rfl rfl

/-- Without a free inode or a free block the helper stores nothing. -/
theorem run_helperOf_none (isFile : Bool) (hg : I.sb.fsInfo = defaultFsInfo)
    (hlen : I.sb.reservedInodesMask.length = 128) (hsb : .superblock ∈ L)
    (hfull : firstFree I.sb.reservedInodesMask = none ∨
      firstFree I.sb.reservedBlocksMask = none) :
    ∃ B', B'.fsInfo = defaultFsInfo ∧
      (helperOf isFile I.sb p).run hostHandler ⟨I.store, F, L, T⟩ =
        (.done (128, B'), ⟨I.store, F, L, T⟩) := by
  have key : ∀ newBlock, ∃ B', B'.fsInfo = defaultFsInfo ∧
      (createHelper I.sb isFile newBlock).run hostHandler ⟨I.store, F, L, T⟩ =
        (.done (128, B'), ⟨I.store, F, L, T⟩) := by
    intro newBlock
    rcases hn : firstFree I.sb.reservedInodesMask with _ | n
    · exact run_createHelper_noInode hg hsb hn
    · refine run_createHelper_noBlock hg hlen hsb hn (hfull.resolve_left ?_)
      simp [hn]
  cases isFile
  · rw [helperOf_false, createDirHelper]
    exact key _
  · rw [helperOf_true, createFileHelper]
    exact key _

end Helpers

/-! ### `init` -/

/-- The image between the truncation and the creation of the root directory. -/
def emptyImage : Image :=
  ⟨initSuperBlock, initDescriptorsTable defaultFsInfo, fun _ => none, fun _ => none⟩

/-- The image `init` leaves. -/
def formatted : Image := emptyImage.alloc false rootInodeId 0 0

/-- The store after `init` wrote the superblock. -/
def initStore : Store := { Store.blank with superblock := some initSuperBlock }

/-- `init` starts from an empty image. -/
theorem emptyImage_store :
    { initStore with descriptorsTable := some (initDescriptorsTable initSuperBlock.fsInfo) } =
      emptyImage.store := rfl

/-- **`init_fs`** leaves a new image, host write by host write. -/
theorem run_initFs (S : Store) :
    initFs.run hostHandler ⟨S, F, [], []⟩ =
      (.done (), ⟨formatted.store, F, [],
        ((emptyImage.allocTrace false rootInodeId 0 0).map Image.store).reverse ++
          [emptyImage.store, initStore]⟩) := by
  have hg : initSuperBlock.fsInfo = defaultFsInfo := rfl
  have hhelper : (createDirHelper initSuperBlock 0 true).run hostHandler
      ⟨emptyImage.store, F, [.descriptorsTable, .superblock, .image],
        [emptyImage.store, initStore]⟩ = _ :=
    run_createDirHelper (I := emptyImage) (p := 0) (n := 0) (b := 0) hg
      (List.length_replicate ..) (List.length_replicate ..) (by simp)
      (by simp) (by decide) (by decide) true (fun _ => rfl)
  have hsb := run_writeSuperBlock (S := .blank) (B := initSuperBlock) (F := F)
    (L := [.superblock, .image]) (T := []) hg (by simp) (by simp)
  rw [← initStore] at hsb
  have hdt := run_writeDescriptorTable (S := initStore)
    (B := initSuperBlock) (F := F) (L := [.descriptorsTable, .superblock, .image])
    (T := [initStore]) (initDescriptorsTable initSuperBlock.fsInfo) hg (by simp) (by simp)
    (by simp)
  rw [emptyImage_store] at hdt
  simp only [initFs, Prog.run_bind, run_openImage_truncate, follow_done, Bool.not_true,
    Bool.false_eq_true, if_false, run_acquire, hsb, hdt, hhelper,
    run_release (List.mem_cons_self ..), List.erase_cons_head, run_leave]
  rfl

/-- A freshly formatted image reserves the root directory and its block. -/
theorem taken_formatted {i : Nat} :
    (Taken formatted.sb.reservedInodesMask i ↔ i = 0) ∧
      (Taken formatted.sb.reservedBlocksMask i ↔ i = 0) := by
  have hlt : 0 < (List.replicate 128 false).length := by
    rw [List.length_replicate]
    decide
  exact ⟨(taken_set hlt).trans
      ⟨fun hi => hi.resolve_right (not_taken_replicate_false 128 i), Or.inl⟩,
    (taken_set hlt).trans
      ⟨fun hi => hi.resolve_right (not_taken_replicate_false 128 i), Or.inl⟩⟩

/-- The block of the root directory of a freshly formatted image. -/
theorem block_formatted :
    formatted.block 0 0 = some (0, emptyImage.freshSlot false 0 0 0) := rfl

/-- No descriptor of a freshly formatted image is reserved. -/
theorem entry_formatted {fd i p : Nat} : ¬ formatted.dt.Entry fd i p :=
  fun h => not_taken_replicate_false 16 fd h.reserved

/-- A freshly formatted image keeps the invariant. -/
theorem formatted_ok : formatted.Ok := by
  have hlenI : emptyImage.sb.reservedInodesMask.length = 128 := List.length_replicate ..
  have hlenB : emptyImage.sb.reservedBlocksMask.length = 128 := List.length_replicate ..
  have hres : ∀ {i}, Taken formatted.sb.reservedInodesMask i ↔ i = 0 := taken_formatted.1
  have hblock : Taken formatted.sb.reservedBlocksMask 0 := taken_formatted.2.mpr rfl
  have hinode : formatted.inodes 0 = some (Image.freshInode false 0 0) := rfl
  have hslot : formatted.slots 0 = some (emptyImage.freshSlot false 0 0 0) := rfl
  have hfirst := block_formatted
  have hrec : formatted.store.records 0 = [⟨0, nameField defaultFsInfo dotName⟩,
      ⟨0, nameField defaultFsInfo twoDotsName⟩] := Image.records_of_block hfirst
  have hdir : ∀ {d}, formatted.store.IsDir d ↔ d = 0 :=
    ⟨fun hd => hres.mp hd.1, fun hd => hd ▸ ⟨hres.mpr rfl, _, hinode, rfl⟩⟩
  have hparent : formatted.store.parentOf 0 = 0 := by simp [Store.parentOf, hrec]
  have hnamed : ∀ {d}, formatted.store.IsDir d → formatted.store.namedRecords d = [] := by
    intro d hd
    rw [hdir.mp hd]
    simp [Store.namedRecords, hrec]
  -- the root names nothing, so every condition on a name is void
  have hnone : ∀ {d e}, formatted.store.IsDir d → e ∉ formatted.store.tree.named d := by
    intro d e hd he
    change e ∈ (formatted.store.namedRecords d).map _ at he
    rw [hnamed hd] at he
    simp at he
  refine ⟨⟨rfl, ?_, ?_, ?_, fun {i} hi => ?_, ⟨_, hfirst, rfl⟩⟩, ⟨?_, fun hd r hr => ?_⟩, ?_⟩
  · exact (List.length_set ..).trans hlenI
  · exact (List.length_set ..).trans hlenB
  · exact (packed_replicate_false 128).set_firstFree (by decide)
  · rw [hres.mp hi]
    exact ⟨_, hinode, .fresh hblock hslot (Image.freshSlot_holds false 0 0 0)⟩
  · exact
      { live_of_dir := fun hd => hd.1
        root_dir := hdir.mpr rfl
        root_parent := hparent
        parent_dir := fun hd => by
          rw [hdir.mp hd]
          exact hdir.mpr hparent
        parent_lt := fun hd hne => absurd (hdir.mp hd) hne
        child_live := fun hd he => absurd he (hnone hd)
        child_ne_root := fun hd he => absurd he (hnone hd)
        child_parent := fun hd he => absurd he (hnone hd)
        unique := fun hd _ he => absurd (List.mem_of_getElem? he) (hnone hd)
        linked_of_named := fun hd he => absurd he (hnone hd) }
  · rw [hnamed hd] at hr
    cases hr
  · exact
      { fdLength := List.length_replicate ..
        inodeLength := List.length_replicate ..
        positionLength := List.length_replicate ..
        unused := fun {fd} h => by
          have hlt := (List.getElem?_eq_some_iff.mp h).1
          simp only [formatted, Image.alloc, emptyImage, initDescriptorsTable,
            defaultFsInfo_descriptorsCount, Image.takeBlock_dt, Image.takeInode_dt,
            Image.setInode_dt, Image.setSlot_dt, List.length_replicate] at hlt ⊢
          rw [List.getElem?_replicate, if_pos hlt]
        used := fun h => absurd h entry_formatted
        position_le := fun h => absurd h entry_formatted
        distinct := fun h => absurd h entry_formatted }

/-! ### `mkdir` and `touch` -/

/-- The directory block after a record was appended, as `write_block` leaves it. -/
theorem writeBlock_link {J : Image} {p b : Nat} {s : Slot} {r : BlockRecord}
    (hblock : J.block p 0 = some (b, s)) (hb : b < 128) (hid : s.info.blockId = b)
    (hrec : s.IsRecords p) (hclean : ¬ s.Mixed) (hroom : s.info.recordsCount ≠ 6) :
    J.store.writeBlock defaultFsInfo
      ⟨{ s.info with recordsCount := (s.info.recordsCount + 1) % 2 ^ 8 },
        some (s.records ++ [r]), List.replicate 121 0⟩ = (.done .stored, (J.link p r).store) := by
  obtain ⟨parent, named, heq, hcount, hle⟩ := hrec.records_eq
  have hlen : s.records.length = s.info.recordsCount := by
    rw [heq, hcount]
    rfl
  have hmod : (s.info.recordsCount + 1) % 2 ^ 8 = s.info.recordsCount + 1 :=
    Nat.mod_eq_of_lt (by omega)
  have hsize : s.info.dataSize = 0 := by
    by_contra hne
    exact hclean ⟨by omega, hne⟩
  rw [hmod]
  refine (writeBlock_records ?_ rfl ?_ (by simp) ?_ hsize).trans ?_
  · rw [hid]
    exact hb
  · simp [hlen]
  · rw [List.length_append, List.length_singleton, hlen]
    omega
  · simp only [Image.link, hblock, hid]
    rfl

section AppendRecord

variable {J : Image} {p b n : Nat} {inode : Inode} {s : Slot} {name : List UInt8} {isFile : Bool}

/-- A full directory gets no record. -/
theorem run_appendRecord_full (isFile : Bool) (n : Nat) (name : List UInt8) (h : J.Ok)
    (hd : J.store.IsDir p) (hget : J.inodes p = some inode) (hblock : J.block p 0 = some (b, s))
    (hclean : ¬ s.Mixed) (hfull : s.info.recordsCount = 6) :
    ∃ L', (appendRecord J.sb inode n name isFile).run hostHandler
        ⟨J.store, F, [.inode, .superblock, .image], T⟩ =
      (if isFile then .done () else .halted .memoryError, ⟨J.store, F, L', T⟩) := by
  obtain ⟨hb, hs⟩ := Image.block_entry hblock hget
  obtain ⟨_, hrec⟩ := h.layout.recordsBlock hd hblock
  have hread := run_readBlock (S := J.store) (B := J.sb) (h := .block) (F := F)
    (T := T) (L := [.inode, .superblock, .image]) (readBlock_records (S := J.store) hs hrec hclean)
    h.layout.geometry (by simp) (by simp)
  refine ⟨[.block], ?_⟩
  cases isFile <;>
    simp [appendRecord, Prog.run_bind, run_index_some hb, hread, h.layout.geometry, hfull,
      leaveInode, leave, run_use_dead]

/-- A name that does not fit crashes the copy. -/
theorem run_appendRecord_long (isFile : Bool) (n : Nat) (name : List UInt8) (h : J.Ok)
    (hd : J.store.IsDir p) (hget : J.inodes p = some inode) (hblock : J.block p 0 = some (b, s))
    (hclean : ¬ s.Mixed) (hroom : s.info.recordsCount ≠ 6) (hlong : 16 ≤ name.length) :
    ∃ L', (appendRecord J.sb inode n name isFile).run hostHandler
        ⟨J.store, F, [.inode, .superblock, .image], T⟩ =
      (.halted .memoryError, ⟨J.store, F, L', T⟩) := by
  obtain ⟨hb, hs⟩ := Image.block_entry hblock hget
  obtain ⟨_, hrec⟩ := h.layout.recordsBlock hd hblock
  have hread := run_readBlock (S := J.store) (B := J.sb) (h := .block) (F := F)
    (T := T) (L := [.inode, .superblock, .image]) (readBlock_records (S := J.store) hs hrec hclean)
    h.layout.geometry (by simp) (by simp)
  refine ⟨[.block, .inode, .superblock, .image], ?_⟩
  simp [appendRecord, Prog.run_bind, run_index_some hb, hread, h.layout.geometry, hroom, hlong]

/-- **A record** is appended where there is room and the name fits. -/
theorem run_appendRecord (isFile : Bool) (n : Nat) (name : List UInt8) (h : J.Ok)
    (hd : J.store.IsDir p) (hget : J.inodes p = some inode) (hblock : J.block p 0 = some (b, s))
    (hclean : ¬ s.Mixed) (hroom : s.info.recordsCount ≠ 6) (hshort : name.length < 16) :
    (appendRecord J.sb inode n name isFile).run hostHandler
        ⟨J.store, F, [.inode, .superblock, .image], T⟩ =
      (.done (), ⟨(J.link p ⟨n, nameField defaultFsInfo name⟩).store, F, [],
        (J.link p ⟨n, nameField defaultFsInfo name⟩).store :: T⟩) := by
  have hok := h.layout.inodeOk hd.1 hget
  obtain ⟨hb, hs⟩ := Image.block_entry hblock hget
  obtain ⟨hh, hrec⟩ := h.layout.recordsBlock hd hblock
  have hb128 : b < 128 := h.layout.blocksLength ▸ (hok.block hok.count_pos hb).1.lt_length
  have hread := run_readBlock (S := J.store) (B := J.sb) (h := .block) (F := F)
    (T := T) (L := [.inode, .superblock, .image]) (readBlock_records (S := J.store) hs hrec hclean)
    h.layout.geometry (by simp) (by simp)
  have hwrite := run_writeBlock (B := J.sb) (h := .block) (F := F) (T := T)
    (L := [.block, .inode, .superblock, .image])
    (writeBlock_link (r := ⟨n, nameField defaultFsInfo name⟩) hblock hb128 hh.blockId_eq hrec
      hclean hroom) (by decide) h.layout.geometry (by simp) (by simp) (by simp)
  dsimp only at hwrite
  simp only [appendRecord, Prog.run_bind, follow_done, run_use, run_index_some hb, hread,
    h.layout.geometry, Option.isNone_some, Bool.false_eq_true,
    getMaxRecordsCount_default, hroom, defaultFsInfo_maxPathLen, Nat.not_le.mpr hshort, if_false,
    Block.recordList, Option.getD_some, hwrite, false_and, List.mem_cons, reduceCtorEq, true_or,
    or_true]
  simp [Prog.run_bind]

end AppendRecord

section Create

variable {p b₀ : Nat} {inode : Inode} {s₀ : Slot} {name : List UInt8} (isFile : Bool)

/-- The inode of the directory has no such name: a new one is made, and its name is added. -/
theorem Image.Ok.run_createNew (h : I.Ok) (hd : I.store.IsDir p) (hget : I.inodes p = some inode)
    (hblock : I.block p 0 = some (b₀, s₀)) (hkind : ¬ inode.isFile = true) (hmixed : ¬ s₀.Mixed)
    (hfound : ¬ (s₀.find name).isSome = true) {k : Nat × Superblock → ExtProg Unit}
    (hk : ∀ r, k r = do
      if r.1 = r.2.fsInfo.inodesCount then leaveInode
      appendRecord r.2 inode r.1 name isFile) :
    ∃ L', (helperOf isFile I.sb p >>= k).run hostHandler
        ⟨I.store, F, [.inode, .superblock, .image], []⟩ =
      ((I.createIn isFile p name).outcome, ⟨(I.createIn isFile p name).image.store, F, L',
        ((I.createIn isFile p name).trace.map Image.store).reverse⟩) := by
  have hg := h.layout.geometry
  have hfirst := Image.firstSlot_eq hblock
  rw [Prog.run_bind]
  by_cases hfull : firstFree I.sb.reservedInodesMask = none ∨
      firstFree I.sb.reservedBlocksMask = none
  · -- after a failed creation the command goes on with what it released
    obtain ⟨B', hg', hhelper⟩ := run_helperOf_none (I := I) (F := F) (T := [])
      (L := [.inode, .superblock, .image]) (p := p) isFile hg h.layout.inodesLength (by simp)
      hfull
    have hout : I.createIn isFile p name = I.unchanged (.halted .memoryError) := by
      simp only [Image.createIn, hget, hfirst, if_neg hkind, if_neg hmixed, if_neg hfound]
      rcases hfull with hfull | hfull
      · simp [hfull]
      · rcases hn : firstFree I.sb.reservedInodesMask <;> simp [hfull]
    refine ⟨[], ?_⟩
    simp [hk, hhelper, hg', Prog.run_bind, appendRecord, run_use_dead, hout, Image.unchanged]
  obtain ⟨n, hn⟩ := Option.ne_none_iff_exists'.mp fun hn => hfull (Or.inl hn)
  obtain ⟨b, hb⟩ := Option.ne_none_iff_exists'.mp fun hb => hfull (Or.inr hb)
  have hhelper := run_helperOf (I := I) (F := F) (T := []) (p := p)
    (L := [.inode, .superblock, .image]) isFile hg h.layout.inodesLength
    h.layout.blocksLength (by simp) (by simp) hn hb
  have hn128 : n ≠ 128 := (h.layout.inodesLength ▸ (firstFree_eq_some_iff.mp hn).1).ne
  -- the directory is the same in the image with the new inode
  have hJ : (I.alloc isFile p n b).Ok := h.alloc hd hn hb
  have hdJ : (I.alloc isFile p n b).store.IsDir p :=
    ((h.alloc_tree isFile p hn hb).1 p).mpr (Or.inr hd)
  obtain ⟨hinodes, hslots⟩ := Image.Ok.alloc_frame isFile p hn hb
  obtain ⟨hb₀, hs₀⟩ := Image.block_entry hblock hget
  have hok := h.layout.inodeOk hd.1 hget
  have hgetJ : (I.alloc isFile p n b).inodes p = some inode := (hinodes p hd.1).trans hget
  have hblockJ : (I.alloc isFile p n b).block p 0 = some (b₀, s₀) :=
    Image.block_eq hgetJ hb₀ ((hslots b₀ (hok.block hok.count_pos hb₀).1).trans hs₀)
  simp only [hk, hhelper, follow_done, hJ.layout.geometry, defaultFsInfo_inodesCount, hn128,
    if_false, Image.createIn, hget, hfirst, if_neg hkind, if_neg hmixed, if_neg hfound, hn, hb]
  generalize hT : ((I.allocTrace isFile p n b).map Image.store).reverse = T
  by_cases hroom : s₀.info.recordsCount = 6
  · obtain ⟨L', hrun⟩ := run_appendRecord_full (F := F) (T := T) isFile n name hJ hdJ hgetJ hblockJ
      hmixed hroom
    exact ⟨L', by simpa [hroom, hT] using hrun⟩
  by_cases hlong : 16 ≤ name.length
  · obtain ⟨L', hrun⟩ := run_appendRecord_long (F := F) (T := T) isFile n name hJ hdJ hgetJ hblockJ
      hmixed hroom hlong
    exact ⟨L', by simpa [hroom, hlong, hT] using hrun⟩
  · have hrun := run_appendRecord (F := F) (T := T) isFile n name hJ hdJ hgetJ hblockJ hmixed hroom
      (by omega)
    exact ⟨[], by simpa [hroom, hlong, hT] using hrun⟩

/-- **Creation.**  The two commands compute `Image.create`. -/
theorem Image.Ok.run_create (h : I.Ok) (path : List UInt8) (hz : 0 ∉ path) :
    ∃ L', (createCommand isFile path).run hostHandler ⟨I.store, F, [], []⟩ =
      ((I.create isFile path).outcome, ⟨(I.create isFile path).image.store, F, L',
        ((I.create isFile path).trace.map Image.store).reverse⟩) := by
  have hg := h.layout.geometry
  simp only [createCommand, MiniExt.create, Prog.run_bind, h.run_enter, follow_done,
    Prog.run_ofOutcome]
  rcases hsplit : splitPath path with (_ | ⟨parentPath, name⟩) | e
  · refine ⟨[], ?_⟩
    simp [Image.create, hsplit, Image.unchanged]
  · obtain ⟨hzp, hzn⟩ := splitPath_done hz hsplit
    obtain ⟨L₀, hwalk, hL₀⟩ := h.run_getInodeIdOfDir (F := F) (T := []) hg parentPath
    simp only [follow_done, Prog.run_bind, hwalk]
    rcases hres : I.store.resolve parentPath with (_ | p) | e
    · obtain rfl := hL₀ _ hres
      refine ⟨[], ?_⟩
      simp [hg, Image.create, hsplit, hres, Image.unchanged]
    · obtain rfl := hL₀ _ hres
      obtain ⟨hp, hl⟩ := h.resolve_linked hres
      obtain ⟨inode, hget, hok⟩ := h.layout.inode hp
      have hp128 : p ≠ 128 := h.layout.inode_ne hp
      have hspec : I.create isFile path = I.createIn isFile p name := by
        simp only [Image.create, hsplit, hres]
      have hread := run_readInode (B := I.sb) (F := F) (T := []) (h := .inode)
        (L := [.superblock, .image]) (S := I.store) hget hg (by simp) (by simp)
      simp only [Outcome.map_done, Option.getD_some, follow_done, hg, defaultFsInfo_inodesCount,
        hp128, if_false, Prog.run_bind, hspec, hread, Option.isNone_some, Bool.false_eq_true,
        run_use, List.mem_cons, true_or]
      obtain ⟨b₀, s₀, hb₀, _, hs₀, _⟩ := hok.getElem hok.count_pos
      have hblock := Image.block_eq hget hb₀ hs₀
      have hfirst := Image.firstSlot_eq hblock
      -- the parent is a file
      by_cases hkind : inode.isFile = true
      · refine ⟨[], ?_⟩
        simp [hkind, Image.createIn, hget, hfirst, Image.unchanged]
      have hd : I.store.IsDir p := ⟨hp, inode, hget, by simpa using hkind⟩
      have hlookup := h.run_lookup (F := F) (T := []) (B := I.sb)
        (L := [.inode, .superblock, .image]) hg hd hget hfirst hzn (by simp) (by simp) (by simp)
      simp only [if_neg hkind, isDirExist, Prog.run_bind, hlookup]
      -- `read_block` crashes on the block of the parent
      by_cases hmixed : s₀.Mixed
      · refine ⟨[.inode, .superblock, .image], ?_⟩
        simp [hmixed, Image.createIn, hget, hfirst, hkind, Image.unchanged]
      simp only [if_neg hmixed, follow_done, Prog.run_pure]
      -- the name has a record
      by_cases hfound : (s₀.find name).isSome = true
      · refine ⟨[], ?_⟩
        simp [hmixed, hfound, Image.createIn, hget, hfirst, hkind, Image.unchanged]
      rw [if_neg hfound]
      exact h.run_createNew isFile hd hget hblock hkind hmixed hfound fun _ => rfl
    · refine ⟨L₀, ?_⟩
      simp [Image.create, hsplit, hres, Image.unchanged]
  · refine ⟨[.superblock, .image], ?_⟩
    simp [Image.create, hsplit, Image.unchanged]

end Create

end MiniExt
