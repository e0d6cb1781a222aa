import MiniExt.Invariant.Changes
import Mathlib.Data.List.TakeWhile
import Mathlib.Data.List.Infix

namespace MiniExt

open Lib

/-!
# Runs of the shared parts: entering an image, walking a path, looking a name up

On an image that keeps the invariant the path walk computes `Store.resolve`, and the lookup
in the first block of a directory computes `Slot.find`.

* `run_enter`, `run_leave`, … — the prologue and the epilogues;
* `findRecord_eq` — the comparison of name fields with a name;
* `readBlock_records`, `readBlock_data`, `readBlock_mixed` — how `read_block` ends;
* `writeBlock_records`, `writeBlock_data`, … — what `write_block` leaves;
* `walk_linked` — a walk ends at a reserved inode that names reach;
* `run_getInodeIdOfDir`, `run_lookup` — the two runs.
-/

variable {I : Image} {B : Superblock} {F : HostFiles} {L : List Handle} {T : List Store}

/-! ### Prologue and epilogues -/

/-- A command starts with the superblock, where the root is reserved. -/
theorem run_enter {S : Store} (hsb : S.superblock = some B)
    (hg : B.fsInfo = defaultFsInfo) (hroot : Taken B.reservedInodesMask 0) :
    enter.run hostHandler ⟨S, F, [], T⟩ =
      (.done B, ⟨S, F, [.superblock, .image], T⟩) := by
  have hroot : B.reservedInodesMask[rootInodeId]? = some true := hroot
  simp [enter, openFs, Prog.run_bind, run_readSuperBlock hsb, hg, hroot]

/-- On an image a command starts with its superblock. -/
theorem Image.Ok.run_enter (h : I.Ok) :
    enter.run hostHandler ⟨I.store, F, [], T⟩ =
      (.done I.sb, ⟨I.store, F, [.superblock, .image], T⟩) :=
  MiniExt.run_enter rfl h.layout.geometry h.root_reserved

/-- Leaving releases the superblock and the image. -/
@[simp] theorem run_leave {S : Store} :
    leave.run hostHandler ⟨S, F, [.superblock, .image], T⟩ =
      (.done (), ⟨S, F, [], T⟩) := by
  simp [leave, Prog.run_bind]

/-- Leaving with an inode releases that too. -/
@[simp] theorem run_leaveInode {S : Store} :
    leaveInode.run hostHandler ⟨S, F, [.inode, .superblock, .image], T⟩ =
      (.done (), ⟨S, F, [], T⟩) := by
  simp [leaveInode, leave, Prog.run_bind]

/-! ### Names -/

/-- The comparison of a field that holds a name with a name decides their equality. -/
theorem strcmpField_append (stored tail name : List UInt8) (hstored : 0 ∉ stored)
    (hname : 0 ∉ name) :
    strcmpField (stored ++ 0 :: tail) name = some (decide (stored = name)) := by
  induction stored generalizing name with
  | nil =>
    cases name with
    | nil => rfl
    | cons y name =>
      have hy : (0 : UInt8) ≠ y := fun heq => hname (by simp [heq])
      simp [strcmpField, hy]
  | cons x stored ih =>
    have hx : x ≠ 0 := fun heq => hstored (by simp [heq])
    cases name with
    | nil => simp [strcmpField, hx]
    | cons y name =>
      simp only [List.cons_append, strcmpField]
      by_cases hxy : x = y
      · subst hxy
        rw [if_pos rfl, ih name (fun hm => hstored (List.mem_cons_of_mem _ hm))
          (fun hm => hname (List.mem_cons_of_mem _ hm))]
        simp
      · rw [if_neg hxy]
        simp [hxy]

/-- A name is read back from its field. -/
theorem takeWhile_nameField {name : List UInt8} (h : 0 ∉ name) :
    (nameField defaultFsInfo name).takeWhile (· ≠ 0) = name := by
  rw [nameField, List.takeWhile_append_of_pos]
  · have hzero : (List.replicate (defaultFsInfo.maxPathLen - name.length) (0 : UInt8)).takeWhile
        (· ≠ 0) = [] := by
      rw [List.takeWhile_replicate]
      simp
    rw [hzero, List.append_nil]
  · intro x hx
    simpa using fun heq : x = 0 => h (heq ▸ hx)

/-- Fields of different names differ. -/
theorem nameField_inj {a b : List UInt8} (ha : 0 ∉ a) (hb : 0 ∉ b)
    (h : nameField defaultFsInfo a = nameField defaultFsInfo b) : a = b := by
  rw [← takeWhile_nameField ha, h, takeWhile_nameField hb]

/-- A field that holds a terminated name. -/
def BlockRecord.Terminated (r : BlockRecord) : Prop :=
  ∃ name, r.path = nameField defaultFsInfo name ∧ name.length < 16 ∧ 0 ∉ name

/-- The search of the records for a name never leaves a name field. -/
theorem findRecord_eq {rs : List BlockRecord} {name : List UInt8}
    (h : ∀ r ∈ rs, r.Terminated) (hname : 0 ∉ name) :
    findRecord rs name =
      .done ((rs.find? (·.path = nameField defaultFsInfo name)).map (·.inodeId)) := by
  induction rs with
  | nil => rfl
  | cons r rs ih =>
    obtain ⟨stored, hpath, hlen, hstored⟩ := h r (by simp)
    have hcmp : strcmpField r.path name = some (decide (stored = name)) := by
      obtain ⟨n, hn⟩ : ∃ n, 16 - stored.length = n + 1 := ⟨15 - stored.length, by omega⟩
      rw [hpath, nameField, defaultFsInfo_maxPathLen, hn, List.replicate_succ]
      exact strcmpField_append stored _ name hstored hname
    simp only [findRecord, hcmp]
    by_cases heq : stored = name
    · subst heq
      simp [hpath]
    · have hne : r.path ≠ nameField defaultFsInfo name := by
        rw [hpath]
        exact fun hf => heq (nameField_inj hstored hname hf)
      simp only [heq, decide_false, List.find?_cons, hne]
      exact ih fun r' hr' => h r' (List.mem_cons_of_mem _ hr')

/-! ### Blocks in memory -/

/-- A data buffer is filled with zeros. -/
theorem dataBuffer_eq (bytes : List UInt8) :
    Store.dataBuffer defaultFsInfo bytes = bytes ++ List.replicate (121 - bytes.length) 0 := by
  simp only [Store.dataBuffer, memcpy, maxSizeOfData_default, List.take_zero, List.nil_append,
    List.drop_replicate, Nat.zero_add]

/-- A block that counts both crashes `read_block`. -/
theorem readBlock_mixed {S : Store} {b : Nat} {s : Slot} (hs : S.slots b = some s)
    (hmixed : s.Mixed) : S.readBlock defaultFsInfo b = .done .mixed := by
  simp only [Store.readBlock, hs]
  exact if_pos hmixed

/-- **A block of records** is read with an empty buffer. -/
theorem readBlock_records {S : Store} {b d : Nat} {s : Slot} (hs : S.slots b = some s)
    (h : s.IsRecords d) (hclean : ¬ s.Mixed) :
    S.readBlock defaultFsInfo b =
      .done (.read ⟨s.info, some s.records, List.replicate 121 0⟩) := by
  have hcount := h.not_isData
  obtain ⟨parent, named, hbody, hlen, _⟩ := h
  simp only [Store.readBlock, hs]
  refine (if_neg hclean).trans ?_
  rw [if_pos hcount]
  simp only [hbody, Slot.records, dataBuffer_eq, List.length_cons]
  rw [if_pos (by omega)]
  rfl

/-- **A block of data** is read with its bytes. -/
theorem readBlock_data {S : Store} {b : Nat} {s : Slot} (hs : S.slots b = some s)
    (h : s.IsData) :
    S.readBlock defaultFsInfo b = .done (.read ⟨s.info, none, s.buffer⟩) := by
  simp only [Store.readBlock, hs]
  refine (if_neg h.not_mixed).trans ?_
  rw [if_neg (not_not.mpr h.1)]
  by_cases hz : s.info.dataSize = 0
  · have hv : s.visible = [] := List.eq_nil_of_length_eq_zero ((Slot.length_visible_le h).trans hz)
    rw [if_neg (not_not.mpr hz), dataBuffer_eq, Slot.buffer, hv]
  · obtain ⟨bytes, hbody, _⟩ := h.2.2 hz
    rw [if_pos hz, if_neg (by simpa using h.2.1)]
    simp only [hbody, dataBuffer_eq, Slot.buffer, Slot.visible]

section WriteBlock

variable {S : Store} {block : Block}

/-- The last slot that was set stays. -/
theorem setSlot_setSlot (b : Nat) (s s' : Slot) :
    (S.setSlot b s).setSlot b s' = S.setSlot b s' := by
  simp only [Store.setSlot]
  congr 1
  funext x
  by_cases hx : x = b <;> simp [hx]

/-- A block without records and without data: the header alone is written. -/
theorem writeBlock_empty (hb : block.info.blockId < 128) (hrec : block.records = none)
    (hcount : block.info.recordsCount = 0) (hsize : block.info.dataSize = 0) :
    S.writeBlock defaultFsInfo block = (.done .stored, S.headerWritten block) := by
  simp [Store.writeBlock, Nat.not_le.mpr hb, hrec, hcount, hsize]

/-- **A block of records** is stored in its slot. -/
theorem writeBlock_records {rs : List BlockRecord} (hb : block.info.blockId < 128)
    (hrec : block.records = some rs) (hcount : block.info.recordsCount = rs.length)
    (hpos : rs ≠ []) (hle : rs.length ≤ 6) (hsize : block.info.dataSize = 0) :
    S.writeBlock defaultFsInfo block =
      (.done .stored, S.setSlot block.info.blockId ⟨block.info, .records rs⟩) := by
  have hlen : rs.length ≠ 0 := fun h => hpos (List.eq_nil_of_length_eq_zero h)
  have hbytes : ¬ 121 < rs.length * sizeofBlockRecord defaultFsInfo := by
    simp only [sizeofBlockRecord, defaultFsInfo_maxPathLen]
    omega
  simp only [Store.writeBlock, defaultFsInfo_blocksCount, Nat.not_le.mpr hb, hrec, hcount, hsize,
    maxSizeOfData_default, hbytes, Store.headerWritten, setSlot_setSlot, List.take_length, hpos,
    ne_eq, not_true_eq_false, and_false, if_false, Nat.lt_irrefl, List.length_eq_zero_iff]

/-- **A block of data** is stored in its slot. -/
theorem writeBlock_data (hb : block.info.blockId < 128) (hrec : block.records = none)
    (hcount : block.info.recordsCount = 0) (hsize : block.info.dataSize ≠ 0)
    (hlen : 121 ≤ block.data.length) :
    S.writeBlock defaultFsInfo block =
      (.done .stored, S.setSlot block.info.blockId
        ⟨block.info, .data (block.data.take 121)⟩) := by
  simp only [Store.writeBlock, defaultFsInfo_blocksCount, Nat.not_le.mpr hb, hrec, hcount, hsize,
    maxSizeOfData_default, Nat.not_lt.mpr hlen, Store.headerWritten, setSlot_setSlot, ne_eq,
    not_true_eq_false, false_and, if_false]

/-- A block with both is rejected, after its header was written. -/
theorem writeBlock_mixed (hb : block.info.blockId < 128) (hcount : block.info.recordsCount ≠ 0)
    (hsize : block.info.dataSize ≠ 0) :
    S.writeBlock defaultFsInfo block = (.done .rejected, S.headerWritten block) := by
  simp [Store.writeBlock, Nat.not_le.mpr hb, hcount, hsize]

end WriteBlock

/-! ### The records of a directory -/

/-- What a directory lists leads to reserved inodes that names reach. -/
theorem Image.Ok.find_linked (h : I.Ok) {d i : Nat} {s : Slot} {name : List UInt8}
    (hd : I.store.IsDir d) (hl : I.store.tree.Linked rootInodeId d)
    (hs : I.store.firstSlot d = some s) (hi : s.find name = some i) :
    Taken I.sb.reservedInodesMask i ∧ I.store.tree.Linked rootInodeId i := by
  obtain ⟨r, hr, rfl⟩ := Option.map_eq_some_iff.mp hi
  have hmem : r ∈ I.store.records d := by
    rw [Store.records, hs]
    exact List.mem_of_find?_eq_some hr
  rw [(h.layout.records_eq hd).1, List.mem_cons, List.mem_cons] at hmem
  rcases hmem with rfl | rfl | hmem
  · exact ⟨hd.1, hl⟩
  · exact ⟨(h.directories.tree.parent_dir hd).1, h.directories.tree.linked_parent hd hl⟩
  · have hnamed : I.store.tree.Named r.inodeId :=
      ⟨d, hd, (r.path, r.inodeId), List.mem_map.mpr ⟨r, hmem, rfl⟩, rfl⟩
    exact ⟨h.directories.tree.live_of_named hnamed, Or.inr hnamed⟩

/-- The names of a directory are terminated. -/
theorem Image.Ok.records_terminated (h : I.Ok) {d : Nat} (hd : I.store.IsDir d) :
    ∀ r ∈ I.store.records d, r.Terminated := by
  intro r hr
  rw [(h.layout.records_eq hd).1, List.mem_cons, List.mem_cons] at hr
  rcases hr with rfl | rfl | hr
  · exact ⟨dotName, rfl, by decide, by decide⟩
  · exact ⟨twoDotsName, rfl, by decide, by decide⟩
  · obtain ⟨name, hpath, hlen, hz, _, _⟩ := h.directories.names hd r hr
    exact ⟨name, hpath, hlen, hz⟩

/-- The search in a directory finds its record. -/
theorem Image.Ok.findRecord_eq (h : I.Ok) {d : Nat} {s : Slot} {name : List UInt8}
    (hd : I.store.IsDir d) (hs : I.store.firstSlot d = some s) (hname : 0 ∉ name) :
    findRecord s.records name = .done (s.find name) := by
  refine MiniExt.findRecord_eq (fun r hr => h.records_terminated hd r ?_) hname
  rwa [Store.records, hs]

/-! ### Paths -/

/-- What is found lies behind the start, in the string. -/
theorem strchr_some {s : List UInt8} {c : UInt8} {start pos : Nat}
    (h : strchr s c start = some pos) : start ≤ pos ∧ pos < s.length := by
  obtain ⟨k, hk, rfl⟩ := Option.map_eq_some_iff.mp h
  have := (List.findIdx?_eq_some_iff_getElem.mp hk).1
  rw [List.length_drop] at this
  omega

/-- What is found is the byte. -/
theorem getElem?_strchr {s : List UInt8} {c : UInt8} {start pos : Nat}
    (h : strchr s c start = some pos) : s[pos]? = some c := by
  obtain ⟨k, hk, rfl⟩ := Option.map_eq_some_iff.mp h
  obtain ⟨hlt, heq, _⟩ := List.findIdx?_eq_some_iff_getElem.mp hk
  rw [List.getElem_drop] at heq
  rw [List.length_drop] at hlt
  rw [Nat.add_comm, List.getElem?_eq_getElem (by omega)]
  simpa using heq

/-- What is not found is not there. -/
theorem strchr_eq_none {s : List UInt8} {c : UInt8} {start : Nat}
    (h : strchr s c start = none) : c ∉ s.drop start := by
  intro hmem
  have hnone := List.findIdx?_eq_none_iff.mp (Option.map_eq_none_iff.mp h) c hmem
  simp at hnone

/-- A string is cut at the first `c`. -/
theorem strchr_split {s : List UInt8} {c : UInt8} {pos : Nat} (h : strchr s c 0 = some pos) :
    c ∉ s.take pos ∧ s = s.take pos ++ c :: s.drop (pos + 1) := by
  obtain ⟨-, hlt⟩ := strchr_some h
  have hat := getElem?_strchr h
  rw [List.getElem?_eq_getElem hlt, Option.some_inj] at hat
  constructor
  · intro hmem
    obtain ⟨j, hj, heq⟩ := List.mem_iff_getElem.mp hmem
    obtain ⟨k, hk, rfl⟩ := Option.map_eq_some_iff.mp h
    obtain ⟨hbound, _, hbefore⟩ := List.findIdx?_eq_some_iff_getElem.mp hk
    rw [List.length_take] at hj
    rw [List.getElem_take] at heq
    have hne := hbefore j (by omega)
    simp only [List.getElem_drop, Nat.zero_add, heq] at hne
    simp at hne
  · rw [← hat, List.getElem_cons_drop, List.take_append_drop]

/-- What `parse_path` returns: it halts by itself, or returns a component without a
    terminator, and a rest that is shorter than the path. -/
theorem parsePath_cases (info : FsInfo) (path : List UInt8) :
    (∃ e, parsePath info path = .halted e ∧ e ≠ .outside) ∨
      ∃ name rest, parsePath info path = .done (name, rest) ∧ 0 ∉ name ∧
        ∀ r, rest = some r → r.length < path.length := by
  unfold parsePath
  by_cases hroot : path = [slash]
  · rw [if_pos hroot]
    by_cases hshort : info.maxPathLen < 2
    · rw [if_pos hshort]
      exact Or.inl ⟨.memoryError, rfl, by decide⟩
    · rw [if_neg hshort]
      exact Or.inr ⟨[slash], none, rfl, by decide, by simp⟩
  rw [if_neg hroot]
  rcases hfirst : strchr path slash 0 with _ | first
  · exact Or.inl ⟨.exit, rfl, by decide⟩
  have hbound := strchr_some hfirst
  dsimp only
  generalize componentLength path first (strchr path slash (first + 1)) = length
  by_cases h₁ : length = 0
  · rw [if_pos h₁]
    exact Or.inl ⟨.exit, rfl, by decide⟩
  rw [if_neg h₁]
  by_cases h₂ : max (path.length + 1) commandBufferLength < first + 1 + length
  · rw [if_pos h₂]
    exact Or.inl ⟨.memoryError, rfl, by decide⟩
  rw [if_neg h₂]
  by_cases h₃ : info.maxPathLen < length ∨ info.maxPathLen ≤ length + 1
  · rw [if_pos h₃]
    exact Or.inl ⟨.memoryError, rfl, by decide⟩
  rw [if_neg h₃]
  refine Or.inr ⟨_, _, rfl, fun hz => by simpa using List.mem_takeWhile_imp hz, fun r hr => ?_⟩
  obtain ⟨pos, hpos, rfl⟩ := Option.map_eq_some_iff.mp hr
  have := strchr_some hpos
  rw [List.length_drop]
  omega

/-- The two parts of a path are parts of it. -/
theorem splitPath_done {path parentPath name : List UInt8} (hz : 0 ∉ path)
    (h : splitPath path = .done (some (parentPath, name))) :
    0 ∉ parentPath ∧ 0 ∉ name := by
  unfold splitPath at h
  dsimp only at h
  by_cases h₁ : path.length % 2 ^ 16 = 0 ∨ bufferLength < path.length % 2 ^ 16
  · rw [if_pos h₁] at h
    cases h
  rw [if_neg h₁] at h
  -- every buffer on the way holds bytes of the path
  have hcopied : ∀ x ∈ path.take (path.length % 2 ^ 16), x ∈ path :=
    fun x hx => List.mem_of_mem_take hx
  generalize path.take (path.length % 2 ^ 16) = copied at h hcopied
  by_cases h₂ : copied.getLast? ≠ some slash ∧ path.length % 2 ^ 16 = bufferLength
  · rw [if_pos h₂] at h
    cases h
  rw [if_neg h₂] at h
  have hbuffer : ∀ x ∈ if copied.getLast? = some slash then copied.dropLast else copied,
      x ∈ path := by
    intro x hx
    split at hx
    · exact hcopied x (List.mem_of_mem_dropLast hx)
    · exact hcopied x hx
  generalize (if copied.getLast? = some slash then copied.dropLast else copied) = buffer
    at h hbuffer
  by_cases h₃ : buffer.head? ≠ some slash
  · rw [if_pos h₃] at h
    cases h
  rw [if_neg h₃] at h
  generalize lastSlash buffer buffer.length (strchr buffer slash 1) 0 = last at h
  by_cases h₄ : buffer.drop (last + 1) = []
  · rw [if_pos h₄] at h
    cases h
  rw [if_neg h₄] at h
  cases h
  exact ⟨fun hm => hz (hbuffer 0 (List.mem_of_mem_take hm)),
    fun hm => hz (hbuffer 0 (List.mem_of_mem_drop hm))⟩

/-! ### The walk -/

/-- **The walk stays in the tree.**  From a directory that names reach it ends at a
    reserved inode that names reach, and it never lacks an answer of the host. -/
theorem Image.Ok.walk_linked (h : I.Ok) (fuel : Nat) (path : List UInt8) (current : Nat)
    (hfuel : path.length < fuel) (hcur : Taken I.sb.reservedInodesMask current)
    (hl : I.store.tree.Linked rootInodeId current) :
    I.store.walk fuel path current ≠ .halted .outside ∧
      ∀ i, I.store.walk fuel path current = .done (some i) →
        Taken I.sb.reservedInodesMask i ∧ I.store.tree.Linked rootInodeId i := by
  induction fuel generalizing path current with
  | zero => omega
  | succ fuel ih =>
    obtain ⟨inode, hget, hok⟩ := h.layout.inode hcur
    simp only [Store.walk, Image.store_inodes, hget]
    by_cases hkind : inode.isFile = true
    · simp [hkind]
    have hd : I.store.IsDir current := ⟨hcur, inode, hget, by simpa using hkind⟩
    obtain ⟨_, b, s, _, _, _, _, _, hblock, _⟩ := h.layout.dirBlock hd
    rw [if_neg hkind]
    rcases parsePath_cases defaultFsInfo path with ⟨e, hparse, he⟩ | ⟨name, rest, hparse, _, hrest⟩
    · simp [hparse, he]
    · simp only [hparse]
      by_cases hslash : name = [slash]
      · rw [if_pos hslash]
        refine ⟨by simp, fun i hi => ?_⟩
        cases hi
        exact ⟨hcur, hl⟩
      · have hs := Image.firstSlot_eq hblock
        simp only [if_neg hslash, hs]
        by_cases hmixed : s.Mixed
        · simp [hmixed]
        · rw [if_neg hmixed]
          rcases hfind : s.find name with _ | next
          · simp
          · have hnext := h.find_linked hd hl hs hfind
            rcases rest with _ | rest
            · refine ⟨by simp, fun i hi => ?_⟩
              cases hi
              exact hnext
            · have hlt := hrest rest rfl
              exact ih rest next (by omega) hnext.1 hnext.2

/-- **The walk** computes `Store.walk`, and gives back the objects it acquired unless it
    halts. -/
theorem Image.Ok.run_getInodeIdOfDirRec (h : I.Ok) (hg : B.fsInfo = defaultFsInfo)
    (fuel depth : Nat) (path : List UInt8) (current : Nat) (hfuel : path.length < fuel)
    (hcur : Taken I.sb.reservedInodesMask current)
    (hl : I.store.tree.Linked rootInodeId current) (himg : .image ∈ L) (hsb : .superblock ∈ L) :
    ∃ L', (getInodeIdOfDirRec B fuel depth path current).run hostHandler
        ⟨I.store, F, L, T⟩ =
      (I.store.walk fuel path current, ⟨I.store, F, L', T⟩) ∧
      ∀ r, I.store.walk fuel path current = .done r → L' = L := by
  -- by induction on the fuel; the objects of a deeper call carry a greater depth
  induction fuel generalizing depth path current L with
  | zero => omega
  | succ fuel ih =>
    obtain ⟨inode, hget, hok⟩ := h.layout.inode hcur
    have hread : ∀ d, (readInode (.walkInode d) B current).run hostHandler
        ⟨I.store, F, L, T⟩ =
          (.done (some inode), ⟨I.store, F, .walkInode d :: L, T⟩) :=
      fun d => run_readInode hget hg himg hsb
    simp only [getInodeIdOfDirRec, Store.walk, Prog.run_bind, hread, follow_done,
      Image.store_inodes, hget, run_use (List.mem_cons_self ..), hg]
    -- a file is not searched
    by_cases hkind : inode.isFile = true
    · refine ⟨L, ?_, fun _ _ => rfl⟩
      simp [hkind, Prog.run_bind]
    have hd : I.store.IsDir current := ⟨hcur, inode, hget, by simpa using hkind⟩
    obtain ⟨inode', b, s, hget', _, _, hb, hslot, hblock, _, hrec⟩ := h.layout.dirBlock hd
    rw [hget] at hget'
    cases hget'
    have hs := Image.firstSlot_eq hblock
    simp only [if_neg hkind, Prog.run_bind, Prog.run_ofOutcome]
    rcases parsePath_cases defaultFsInfo path with ⟨e, hparse, _⟩ |
      ⟨name, rest, hparse, hname, hrest⟩
    · refine ⟨.walkInode depth :: L, ?_, by simp [hparse]⟩
      simp only [hparse, follow_halted]
    · simp only [hparse, follow_done]
      -- the path is the root
      by_cases hslash : name = [slash]
      · refine ⟨L, ?_, fun _ _ => rfl⟩
        simp [hslash, Prog.run_bind]
      · simp only [if_neg hslash, Prog.run_bind, run_index_some hb, follow_done, hs]
        by_cases hmixed : s.Mixed
        · -- `read_block` crashes
          refine ⟨.walkInode depth :: L, ?_, by simp [hmixed]⟩
          simp only [if_pos hmixed,
            run_readBlock_mixed (readBlock_mixed (S := I.store) hslot hmixed) hg
              (List.mem_cons_of_mem _ himg) (List.mem_cons_of_mem _ hsb), follow_halted]
        · simp only [if_neg hmixed,
            run_readBlock (readBlock_records (S := I.store) hslot hrec hmixed) hg
              (List.mem_cons_of_mem _ himg) (List.mem_cons_of_mem _ hsb),
            run_use (List.mem_cons_self ..), follow_done, Prog.run_ofOutcome, Option.getD_some,
            Block.recordList, h.findRecord_eq hd hs hname]
          -- no record of the name
          rcases hfind : s.find name with _ | next
          · refine ⟨L, ?_, fun _ _ => rfl⟩
            simp [Prog.run_bind]
          · -- the name was the last, or the walk goes on below its record
            rcases rest with _ | rest
            · refine ⟨L, ?_, fun _ _ => rfl⟩
              simp [Prog.run_bind]
            · have hnext := h.find_linked hd hl hs hfind
              have hlt := hrest rest rfl
              obtain ⟨L', hrun, hL'⟩ := ih (L := .walkBlock depth :: .walkInode depth :: L)
                (depth + 1) rest next (by omega) hnext.1 hnext.2 (by simp [himg]) (by simp [hsb])
              simp only [Prog.run_bind, hrun]
              rcases hwalk : I.store.walk fuel rest next with r | e
              · obtain rfl := hL' r hwalk
                refine ⟨L, ?_, fun _ _ => rfl⟩
                simp
              · exact ⟨L', rfl, by simp⟩

/-- **`get_inode_id_of_dir`** computes `Store.resolve`, and releases what it acquired. -/
theorem Image.Ok.run_getInodeIdOfDir (h : I.Ok) (hg : B.fsInfo = defaultFsInfo)
    (path : List UInt8) :
    ∃ L', (getInodeIdOfDir path B).run hostHandler
        ⟨I.store, F, [.superblock, .image], T⟩ =
      ((I.store.resolve path).map (·.getD 128), ⟨I.store, F, L', T⟩) ∧
      ∀ r, I.store.resolve path = .done r → L' = [.superblock, .image] := by
  obtain ⟨L', hrun, hL'⟩ := h.run_getInodeIdOfDirRec (F := F) (T := T)
    (L := [.superblock, .image]) hg (path.length + 1) 0 path rootInodeId (Nat.lt_succ_self _)
    h.root_reserved (Or.inl rfl) (by simp) (by simp)
  refine ⟨L', ?_, hL'⟩
  simp only [getInodeIdOfDir, Prog.run_bind, hrun, Store.resolve]
  rcases I.store.walk (path.length + 1) path rootInodeId with (_ | i) | e <;> simp [hg]

/-- What the walk of a path from the root returns. -/
theorem Image.Ok.resolve_linked (h : I.Ok) {path : List UInt8} {i : Nat}
    (hi : I.store.resolve path = .done (some i)) :
    Taken I.sb.reservedInodesMask i ∧ I.store.tree.Linked rootInodeId i :=
  (h.walk_linked (path.length + 1) path rootInodeId (Nat.lt_succ_self _) h.root_reserved
    (Or.inl rfl)).2 i hi

/-- The directory a creation or an opening works in. -/
theorem Image.Ok.site_dir (h : I.Ok) {path name : List UInt8} {p : Nat} {s : Slot}
    (hsite : I.store.site path = .done (some (p, s, name))) :
    I.store.IsDir p ∧ I.store.tree.Linked rootInodeId p ∧ ∃ b, I.block p 0 = some (b, s) := by
  obtain ⟨parentPath, inode, _, hres, hget, hkind, hs⟩ := Store.site_eq_iff.mp hsite
  obtain ⟨hp, hl⟩ := h.resolve_linked hres
  have hd : I.store.IsDir p := ⟨hp, inode, hget, hkind⟩
  obtain ⟨_, b, s', _, _, _, _, _, hblock, _⟩ := h.layout.dirBlock hd
  rw [Image.firstSlot_eq hblock] at hs
  cases hs
  exact ⟨hd, hl, b, hblock⟩

/-- **The lookup** in the first block of a directory. -/
theorem Image.Ok.run_lookup (h : I.Ok) (hg : B.fsInfo = defaultFsInfo) {p : Nat} {inode : Inode}
    {s : Slot} {name : List UInt8} (hd : I.store.IsDir p) (hget : I.inodes p = some inode)
    (hs : I.store.firstSlot p = some s) (hname : 0 ∉ name) (himg : .image ∈ L)
    (hsb : .superblock ∈ L) (hinode : .inode ∈ L) :
    (lookup inode name B).run hostHandler ⟨I.store, F, L, T⟩ =
      (if s.Mixed then .halted .memoryError else .done (s.find name), ⟨I.store, F, L, T⟩) := by
  obtain ⟨inode', b, s', hget', _, _, hb, hslot, hblock, _, hrec⟩ := h.layout.dirBlock hd
  rw [hget] at hget'
  cases hget'
  rw [Image.firstSlot_eq hblock] at hs
  cases hs
  simp only [lookup, Prog.run_bind, run_use hinode, follow_done, run_index_some hb]
  by_cases hmixed : s.Mixed
  · simp only [if_pos hmixed,
      run_readBlock_mixed (readBlock_mixed (S := I.store) hslot hmixed) hg himg hsb, follow_halted]
  · simp only [if_neg hmixed,
      run_readBlock (readBlock_records (S := I.store) hslot hrec hmixed) hg himg hsb, follow_done,
      Prog.run_bind, Prog.run_ofOutcome, Block.recordList, Option.getD_some,
      h.findRecord_eq hd (Image.firstSlot_eq hblock) hname]
    simp

end MiniExt
