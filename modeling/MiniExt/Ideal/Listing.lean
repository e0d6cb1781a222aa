import MiniExt.Ideal.Tree
import MiniExt.Properties.ClosedDescriptors
import MiniExt.Runs.Answers
import MiniExt.Runs.Output

namespace MiniExt

open Lib

/-!
# Ideal — listings

`ls` returns nothing; its result is what it prints.  For the path of a directory that is what the
file system lists there, one line for each name, and for other paths it is nothing.

* `listingText` — the lines of a listing;
* `Ok.run_lsRecords_printing` — the loop of `ls`;
* `Models.found` — the walk of `ls`;
* `Models.lists` — the call.
-/

/-- The line of `ls` for a name. -/
def entryText (name : List UInt8) (isFile : Bool) : List Output :=
  .stdout "%s" [.string name] :: (if isFile then [.stdout " -- file" []] else []) ++
    [.stdout "\n" []]

/-- What `ls` says. -/
def listingText : Option (List (List UInt8 × Bool)) → List Output
  | some entries => entries.flatMap fun (name, isFile) => entryText name isFile
  | none => []

/-- A line is appended to the output. -/
@[simp] theorem Printing.run_printf {m : Machine} {out : List Output} (format : String)
    (args : List Arg) : (printf format args).run hostHandler.printing (m, out) =
      (.done (), (m, out ++ [.stdout format args])) := rfl

/-- All of a listing is said on `stdout`. -/
theorem filter_listingText (entries : Option (List (List UInt8 × Bool))) :
    (listingText entries).filter Output.isResult = listingText entries := by
  cases entries with
  | none => rfl
  | some entries =>
    rw [listingText, List.filter_flatMap]
    refine List.flatMap_congr fun e _ => ?_
    rcases e with ⟨name, _ | _⟩ <;> rfl

namespace Image

variable {I : Image} {F : HostFiles} {T : List Store} {out : List Output} {fs : IdealFs} {d i : Nat}

/-! ### The loop -/

/-- The line for a record of a directory. -/
def recordText (I : Image) (r : BlockRecord) : List Output :=
  entryText r.name (decide (¬ I.store.IsDir r.inodeId))

/-- The flag of an inode says what it is. -/
theorem isFile_eq {inode : Inode} (hi : Taken I.sb.reservedInodesMask i)
    (hget : I.inodes i = some inode) : inode.isFile = decide (¬ I.store.IsDir i) := by
  by_cases hd : I.store.IsDir i
  · obtain ⟨inode', hget', hkind⟩ := hd.2
    obtain rfl : inode' = inode := Option.some.inj (hget'.symm.trans hget)
    rw [hkind, decide_eq_false (not_not.mpr hd)]
  · rw [decide_eq_true hd]
    by_contra hkind
    exact hd ⟨hi, inode, hget, by simpa using hkind⟩

/-- **The loop of `ls`** prints a line for each record. -/
theorem Ok.run_lsRecords_printing (h : I.Ok) {rs : List BlockRecord}
    (hrs : ∀ r ∈ rs, Taken I.sb.reservedInodesMask r.inodeId) :
    (Printing.lsRecords I.sb rs).run hostHandler.printing
        (⟨I.store, F, [.block, .superblock, .image], T⟩, out) =
      (.done (), (⟨I.store, F, [], T⟩, out ++ rs.flatMap I.recordText)) := by
  induction rs generalizing out with
  | nil =>
    have hrelease := Printing.run_lifted (run_release (S := I.store) (F := F) (T := T)
      (L := [.block, .superblock, .image]) (h := .block) (by simp)) out
    have hleave := Printing.run_lifted (run_leave (S := I.store) (F := F) (T := T)) out
    simp only [Printing.lsRecords, Prog.run_bind, hrelease, follow_done]
    simpa using hleave
  | cons r rs ih =>
    obtain ⟨hr, hrest⟩ := List.forall_mem_cons.mp hrs
    obtain ⟨inode, hget, _⟩ := h.layout.inode hr
    have hread := fun out => Printing.run_reading .readInode
      (run_readInode (S := I.store) (B := I.sb) (F := F) (h := .inode)
        (L := [.block, .superblock, .image]) (T := T) hget
      h.layout.geometry (by simp) (by simp)) out
    have hrelease := fun out => Printing.run_lifted (run_release (S := I.store) (F := F) (T := T)
      (L := [.inode, .block, .superblock, .image]) (h := .inode) (List.mem_cons_self ..)) out
    have hline : I.recordText r = entryText r.name inode.isFile := by
      rw [recordText, isFile_eq hr hget]
    simp only [Printing.lsRecords, Printing.readInode, Prog.run_bind, Printing.run_printf,
      follow_done, hread]
    rw [List.flatMap_cons, hline, ← List.append_assoc]
    cases inode.isFile with
    | false =>
      simp only [Bool.false_eq_true, if_false, Prog.run_bind, hrelease, follow_done,
        Printing.run_printf, List.erase_cons_head, ih hrest]
      rw [List.append_assoc out]
      rfl
    | true =>
      simp only [if_true, Prog.run_bind, hrelease, follow_done, Printing.run_printf,
        List.erase_cons_head, ih hrest]
      rw [List.append_assoc out, List.append_assoc out]
      rfl

/-- A directory is listed. -/
theorem Tidy.run_lsInode_printing (ht : I.Tidy) (hd : I.store.IsDir i) {inode : Inode}
    (hget : I.inodes i = some inode) :
    (Printing.lsInode I.sb inode).run hostHandler.printing
        (⟨I.store, F, [.inode, .superblock, .image], T⟩, out) =
      (.done (), (⟨I.store, F, [], T⟩, out ++ (I.store.records i).flatMap I.recordText)) := by
  obtain ⟨inode', b, s, hget', _, _, hb, hslot, hblock, _, hrec⟩ := ht.ok.layout.dirBlock hd
  obtain rfl : inode' = inode := Option.some.inj (hget'.symm.trans hget)
  have hfile : inode'.isFile = false := by
    rw [isFile_eq hd.1 hget, decide_eq_false (not_not.mpr hd)]
  have hclean : ¬ s.Mixed := fun hmixed => hmixed.2 (ht.apart.clean hd (firstSlot_eq hblock))
  have hrecords : I.store.records i = s.records := records_of_block hblock
  have huse := fun out => Printing.run_lifted (run_use (S := I.store) (F := F) (T := T)
    (L := [.inode, .superblock, .image]) (h := .inode) (List.mem_cons_self ..)) out
  have hindex := fun out => Printing.run_lifted (run_index_some hb
    ⟨I.store, F, [.inode, .superblock, .image], T⟩) out
  have hread := fun out => Printing.run_readBlock (MiniExt.run_readBlock (S := I.store)
    (B := I.sb) (F := F) (h := .block) (L := [.inode, .superblock, .image]) (T := T)
    (readBlock_records (S := I.store) hslot hrec hclean) ht.ok.layout.geometry (by simp) (by simp))
    out
  have hrelease := fun out => Printing.run_lifted (run_release (S := I.store) (F := F) (T := T)
    (L := [.block, .inode, .superblock, .image]) (h := .inode) (by simp)) out
  rw [hrecords]
  simp only [Printing.lsInode, Prog.run_bind, huse, hindex, follow_done, hfile, Bool.false_eq_true,
    if_false, hread, hrelease]
  exact ht.ok.run_lsRecords_printing fun r hr => ht.ok.record_taken hd (hrecords ▸ hr)

/-- A file is not. -/
theorem run_lsInode_file_printing {inode : Inode} (hfile : inode.isFile = true) :
    (Printing.lsInode I.sb inode).run hostHandler.printing
        (⟨I.store, F, [.inode, .superblock, .image], T⟩, out) =
      (.done (), (⟨I.store, F, [], T⟩, out ++ [.stderr "Trying to list file. Abort!\n"])) := by
  have huse := Printing.run_lifted (run_use (S := I.store) (F := F) (T := T)
    (L := [.inode, .superblock, .image]) (h := .inode) (List.mem_cons_self ..)) out
  have hleave := fun out =>
    Printing.run_lifted (run_leaveInode (S := I.store) (F := F) (T := T)) out
  simp only [Printing.lsInode, Prog.run_bind, huse, follow_done, hfile, if_true,
    Printing.run_eprint, hleave]

/-! ### The call -/

/-- **The lines of a directory** are those of the file system. -/
theorem Models.records_text (hm : I.Models fs) (ht : I.Tidy) {names p : List (List UInt8)}
    (hresolve : fs.resolve defaultLimits names = some p) (hp : I.store.Locates p d)
    (hd : I.store.IsDir d) :
    (I.store.records d).flatMap I.recordText = listingText (fs.list defaultLimits names) := by
  have hnode := hm.node_eq hp
  rw [Store.nodeOf_dir hd] at hnode
  have hparent : I.store.IsDir (I.store.parentOf d) := ht.ok.directories.tree.parent_dir hd
  have hnamed : ∀ r ∈ I.store.namedRecords d,
      I.recordText r = entryText r.name (fs.isFile (p ++ [r.name])) := by
    intro r hr
    have hnode := hm.node_eq (locates_concat.mpr ⟨d, hp, hd, r, hr, rfl, rfl⟩)
    rw [recordText, FileSystem.isFile, hnode]
    by_cases hchild : I.store.IsDir r.inodeId
    · rw [Store.nodeOf_dir hchild, decide_eq_false (not_not.mpr hchild)]
    · rw [Store.nodeOf_file hchild, decide_eq_true hchild]
  have hdot : ∀ {name : List UInt8} {j : Nat}, 0 ∉ name → I.store.IsDir j →
      I.recordText ⟨j, nameField defaultFsInfo name⟩ = entryText name false := by
    intro name j hz hj
    rw [recordText, decide_eq_false (not_not.mpr hj)]
    exact congrArg₂ entryText (takeWhile_nameField hz) rfl
  rw [FileSystem.list, FileSystem.directory_eq_some.mpr ⟨hresolve, hnode⟩, Option.map_some,
    (ht.ok.layout.records_eq hd).1]
  show _ = List.flatMap _ ((dotName, false) :: (twoDotsName, false) :: _)
  simp only [List.flatMap_cons, List.flatMap_map, List.map_map,
    hdot (show 0 ∉ dotName by decide) hd, hdot (show 0 ∉ twoDotsName by decide) hparent]
  rw [List.flatMap_congr hnamed]
  rfl

/-- **`ls`** of the path of a directory says what the file system lists there, and of another
    path nothing. -/
theorem Models.lists (hm : I.Models fs) (ht : I.Tidy) {names : List (List UInt8)}
    {trailing : Bool} (hnames : ∀ c ∈ names, IsComponent c) (hne : names ≠ [] ∨ trailing = true) :
    (Printing.ls (pathOf names trailing)).Utters hostHandler Output.isResult ⟨I.store, F, [], T⟩ ()
      (listingText (fs.list defaultLimits names)) ⟨I.store, F, [], T⟩ := by
  intro all
  have hg := ht.ok.layout.geometry
  have henter : Printing.enter.run hostHandler.printing (⟨I.store, F, [], T⟩, all) = _ :=
    ht.ok.run_enter_printing
  obtain ⟨L', hwalk, hL'⟩ := ht.ok.run_getInodeIdOfDir (F := F) (T := T) hg (pathOf names trailing)
  rw [← Printing.silent_getInodeIdOfDir] at hwalk
  rcases hm.found ht hnames hne with ⟨hnone, hres⟩ | ⟨p, i, hresolve, hp, hres⟩
  · -- the walk finds nothing
    obtain rfl := hL' none hres
    rw [hres, Outcome.map_done, Option.getD_none] at hwalk
    obtain ⟨out, hwalk, hmute⟩ := (Printing.mute_getInodeIdOfDir _ _).utters hwalk all
    have hleave := Printing.run_lifted (run_leave (S := I.store) (F := F) (T := T))
      (out ++ [.stderr "Can't find directory. Abort!\n"])
    have hlist : fs.list defaultLimits names = none := by
      rw [FileSystem.list, hnone, Option.map_none]
    refine ⟨out ++ [.stderr "Can't find directory. Abort!\n"], ?_, ?_⟩
    · simp only [Printing.ls, Printing.readInode, Prog.run_bind, henter, follow_done, hwalk, hg]
      exact hleave
    · rw [List.filter_append, hmute, hlist, List.append_nil]
      rfl
  obtain rfl := hL' (some i) hres
  rw [hres, Outcome.map_done, Option.getD_some] at hwalk
  obtain ⟨out, hwalk, hmute⟩ := (Printing.mute_getInodeIdOfDir _ _).utters hwalk all
  have hi := ht.ok.taken_of_locates hp
  obtain ⟨inode, hget, _⟩ := ht.ok.layout.inode hi
  have hread := Printing.run_reading .readInode (run_readInode (S := I.store) (B := I.sb) (F := F)
    (h := .inode) (L := [.superblock, .image]) (T := T) hget hg (by simp) (by simp)) out
  have hne : ¬ i = defaultFsInfo.inodesCount := ht.ok.layout.inode_ne hi
  have hls : ∀ {r}, (Printing.lsInode I.sb inode).run hostHandler.printing
      (⟨I.store, F, [.inode, .superblock, .image], T⟩, out) = r →
      (Printing.ls (pathOf names trailing)).run hostHandler.printing
        (⟨I.store, F, [], T⟩, all) = r := by
    rintro r rfl
    simp only [Printing.ls, Printing.readInode, Prog.run_bind, henter, follow_done, hwalk, hg, hne,
      if_false, hread,
      Option.isNone_some, Bool.false_eq_true, Option.getD_some]
  by_cases hd : I.store.IsDir i
  · refine ⟨_, hls (ht.run_lsInode_printing hd hget), ?_⟩
    rw [List.filter_append, hmute, hm.records_text ht hresolve hp hd, filter_listingText,
      List.append_nil]
  · have hfile : inode.isFile = true := by rw [isFile_eq hi hget, decide_eq_true hd]
    have hlist : fs.list defaultLimits names = none := by
      rw [FileSystem.list, Option.map_eq_none_iff, Option.eq_none_iff_forall_not_mem]
      rintro ⟨q, listed⟩ hdir
      obtain ⟨hq, hnode⟩ := FileSystem.directory_eq_some.mp hdir
      obtain rfl : q = p := Option.some.inj (hq.symm.trans hresolve)
      rw [hm.node_eq hp, Store.nodeOf_file hd] at hnode
      cases hnode
    refine ⟨_, hls (run_lsInode_file_printing hfile), ?_⟩
    rw [List.filter_append, hmute, hlist, List.append_nil]
    rfl

end Image

end MiniExt
