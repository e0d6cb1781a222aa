import MiniExt.Paths
import MiniExt.Properties.Creation
import MiniExt.Runs.Frames

namespace MiniExt

open Lib

/-!
# Names

A record has a field of `max_path_len` bytes for its name.  What the images hold is in
order: every name ends inside its field, and no directory has a name twice.  But the copy
into the field has no bound, so a creation with a longer name is not rejected: it writes
past the field.

* `Store.NamesFaithful` — the names an image holds;
* `KeepsNames` — the property, of a creation from an image;
* `Store.CrashesOverlong` — the creations that a longer name ends in a memory error;
* `keepsNames_iff` — that these are the ones that break the property.
-/

/-- The name in a record: the bytes of its field before the terminator. -/
def BlockRecord.name (r : BlockRecord) : List UInt8 := r.path.takeWhile (· ≠ 0)

/-- Every name ends inside its field, and no directory has a name twice. -/
structure Store.NamesFaithful (st : Store) : Prop where
  terminated : ∀ {d}, st.IsDir d → ∀ r ∈ st.records d, r.path.length = 16 ∧ 0 ∈ r.path
  distinct : ∀ {d}, st.IsDir d → ((st.records d).map BlockRecord.name).Nodup

/-- The names of the image are faithful.  A creation that finds its directory leaves the
    records there alone or adds one with the last component of the path; when that does not
    fit a record, it adds none, and the program goes on or exits. -/
structure KeepsNames (w : World) (isFile : Bool) (path : CString) : Prop where
  faithful : w.store.NamesFaithful
  stored : ∀ p s name, w.store.site path.bytes = .done (some (p, s, name)) →
    let r := exec (createCommand isFile path.bytes) w
    r.2.store.records p = w.store.records p ∨
      ∃ new : BlockRecord, r.2.store.records p = w.store.records p ++ [new] ∧
        new.name = lastComponent path.bytes
  rejected : ∀ p s name, w.store.site path.bytes = .done (some (p, s, name)) →
    let r := exec (createCommand isFile path.bytes) w
    16 ≤ (lastComponent path.bytes).length →
      r.2.store.records p = w.store.records p ∧ r.1 ≠ .halted .memoryError

/-- The name does not fit a record, and the creation crashes: in the copy, or already in the
    read of a directory whose header counts records and data.  The exception: `create_file`
    returns at a full directory that it can read. -/
def Store.CrashesOverlong (st : Store) (isFile : Bool) (path : List UInt8) : Prop :=
  match st.site path with
  | .done (some (_, s, _)) => 16 ≤ (lastComponent path).length ∧
      ¬ (¬ s.Mixed ∧ isFile = true ∧ 0 < st.freeInodes ∧ 0 < st.freeBlocks ∧
        s.info.recordsCount = 6)
  | _ => False

instance (st : Store) (isFile : Bool) (path : List UInt8) :
    Decidable (st.CrashesOverlong isFile path) := by
  unfold Store.CrashesOverlong
  generalize st.site path = o
  rcases o with (_ | ⟨_, _, _⟩) | _ <;> infer_instance

/-! ### The last component -/

/-- The name that a creation stores is the last component of the path. -/
theorem Store.site_last {st : Store} {path name : List UInt8} {p : Nat} {s : Slot}
    (hlen : path.length < 2 ^ 16) (h : st.site path = .done (some (p, s, name))) :
    name = lastComponent path := by
  obtain ⟨parentPath, _, hsplit, _⟩ := Store.site_eq_iff.mp h
  exact splitPath_last hlen hsplit

/-! ### The names of an image -/

/-- A name is read back from its field. -/
theorem name_nameField {i : Nat} {name : List UInt8} (hz : 0 ∉ name) :
    (⟨i, nameField defaultFsInfo name⟩ : BlockRecord).name = name :=
  takeWhile_nameField hz

namespace Image

variable {I J : Image} {isFile : Bool} {path : List UInt8} {d : Nat}

/-- A record holds its own name. -/
theorem Ok.path_eq (h : I.Ok) (hd : I.store.IsDir d) {r : BlockRecord}
    (hr : r ∈ I.store.records d) :
    r.path = nameField defaultFsInfo r.name ∧ r.name.length < 16 := by
  obtain ⟨name, hpath, hlen, hz⟩ := h.records_terminated hd r hr
  have hname : r.name = name := by
    unfold BlockRecord.name
    rw [hpath]
    exact name_nameField (i := 0) hz
  rw [hname]
  exact ⟨hpath, hlen⟩

/-- No directory has a name twice. -/
def Distinct (I : Image) : Prop :=
  ∀ d, I.store.IsDir d → ((I.store.records d).map BlockRecord.name).Nodup

/-- **The names of an image** are faithful. -/
theorem Ok.namesFaithful (h : I.Ok) (hdist : I.Distinct) : I.store.NamesFaithful where
  terminated {d} hd r hr := by
    obtain ⟨hpath, hlen⟩ := h.path_eq hd hr
    rw [hpath, nameField, defaultFsInfo_maxPathLen]
    refine ⟨?_, ?_⟩
    · simp only [List.length_append, List.length_replicate]
      omega
    · rw [List.mem_append, List.mem_replicate]
      exact Or.inr ⟨by omega, rfl⟩
  distinct hd := hdist _ hd

/-- The names stay distinct where the tree stays. -/
theorem SameTree.distinct (hsame : SameTree I J) (hdist : I.Distinct) : J.Distinct := by
  intro d hd
  rw [hsame.dir] at hd
  rw [hsame.records d hd]
  exact hdist d hd

/-- The names of a new image are distinct. -/
theorem distinct_formatted : formatted.Distinct := by
  intro d hd
  rw [taken_formatted.1.mp hd.1, records_of_block block_formatted]
  decide

/-- A name that the lookup did not find is not in the directory. -/
theorem CreateAt.name_notMem {p n b b₀ : Nat} {name : List UInt8} {s : Slot}
    (hat : I.CreateAt path p name n b b₀ s) (h : I.Ok) :
    name ∉ (I.store.records p).map BlockRecord.name := by
  rintro hmem
  obtain ⟨r, hr, rfl⟩ := List.mem_map.mp hmem
  have hpath := (h.path_eq hat.dir hr).1
  have habsent := hat.absent
  rw [Slot.find, Option.map_eq_none_iff] at habsent
  rw [records_of_block hat.block] at hr
  exact List.find?_eq_none.mp habsent r hr (by simpa using hpath)

/-- A new inode adds a directory with `.` and `..`, or none. -/
theorem CreateAt.distinct_alloc {p n b b₀ : Nat} {name : List UInt8} {s : Slot}
    (hat : I.CreateAt path p name n b b₀ s) (h : I.Ok) (isFile : Bool) (hdist : I.Distinct) :
    (I.alloc isFile p n b).Distinct := by
  obtain ⟨hdir, hrec, hnew⟩ := h.alloc_tree isFile p hat.inodeFree hat.blockFree
  intro d hd
  rcases (hdir d).mp hd with ⟨rfl, hkind⟩ | hold
  · rw [((hat.alloc_ok h isFile).layout.records_eq hd).1, (hnew hkind).2]
    show [dotName, twoDotsName].Nodup
    decide
  · rw [hrec d hold]
    exact hdist d hold

/-- **A creation** keeps the names apart. -/
theorem Ok.distinct_created (h : I.Ok) (isFile : Bool) (path : CString) (hdist : I.Distinct) :
    (I.create isFile path.bytes).image.Distinct := by
  have hrun := h.createRun isFile path.bytes
  generalize I.create isFile path.bytes = e at hrun
  cases hrun with
  | unchanged o => exact hdist
  | leaked o hat hfull => exact hat.distinct_alloc h isFile hdist
  | @linked p n b b₀ name s hat hroom hshort =>
    have hJ := hat.distinct_alloc h isFile hdist
    obtain ⟨hok, _, _, hadded⟩ := hat.link_ok h isFile path.nulFree hroom hshort
    obtain ⟨parentPath, hsplit, _⟩ := hat.split
    intro d hd
    have hdir : (I.alloc isFile p n b).store.IsDir d := by
      rw [hat.link_eq h] at hd
      exact hd
    by_cases hdp : d = p
    · subst hdp
      rw [hadded, List.map_append, List.map_singleton,
        name_nameField (splitPath_done path.nulFree hsplit).2, List.nodup_append]
      refine ⟨hdist d hat.dir, by simp, ?_⟩
      rintro x hx y hy rfl
      rw [List.mem_singleton.mp hy] at hx
      exact hat.name_notMem h hx
    · have hsame := hat.sameInode_link h isFile ⟨n, nameField defaultFsInfo name⟩ hdir.1 hdp
      rw [Store.records, hsame.firstSlot (hat.alloc_ok h isFile) hdir.1]
      exact hJ d hdir

/-- **One command** keeps the names apart. -/
theorem Ok.distinct_after (h : I.Ok) (F : HostFiles) (c : Command) (hdist : I.Distinct) :
    (I.after F c).Distinct := by
  by_cases htable : c.TableOnly
  · rw [h.after_tableOnly F htable]
    exact hdist
  cases c with
  | init => exact distinct_formatted
  | mkdir path => exact h.distinct_created false path hdist
  | touch path => exact h.distinct_created true path hdist
  | write fd data => exact (h.sameTree_written fd data).distinct hdist
  | writeFrom fd path =>
    simp only [Image.after]
    split
    · exact (h.sameTree_written fd _).distinct hdist
    · exact hdist
  | _ => exact absurd trivial htable

/-! ### Creations -/

/-- What a creation does to the records of its directory. -/
theorem Ok.created_records (h : I.Ok) (isFile : Bool) (path : CString) {p : Nat} {s : Slot}
    {name : List UInt8} (hsite : I.store.site path.bytes = .done (some (p, s, name))) :
    (I.create isFile path.bytes).image.store.records p = I.store.records p ∨
      name.length < 16 ∧ ∃ n, (I.create isFile path.bytes).image.store.records p =
        I.store.records p ++ [⟨n, nameField defaultFsInfo name⟩] := by
  have hrun := h.createRun isFile path.bytes
  generalize I.create isFile path.bytes = e at hrun
  cases hrun with
  | unchanged o => exact Or.inl rfl
  | leaked o hat hfull =>
    obtain ⟨_, hrec, _⟩ := h.alloc_tree isFile _ hat.inodeFree hat.blockFree
    exact Or.inl (hrec p (h.site_dir hsite).1)
  | @linked p' n b b₀ name' s' hat hroom hshort =>
    have heq := hat.site.symm.trans hsite
    cases heq
    obtain ⟨_, _, _, hadded⟩ := hat.link_ok h isFile path.nulFree hroom hshort
    exact Or.inr ⟨hshort, n, hadded⟩

/-- The lookup never finds a name that does not fit a record. -/
theorem Ok.find_overlong (h : I.Ok) (hd : I.store.IsDir d) {s : Slot}
    (hs : I.store.firstSlot d = some s) {name : List UInt8} (hz : 0 ∉ name)
    (hlong : 16 ≤ name.length) : s.find name = none := by
  rw [Slot.find, Option.map_eq_none_iff, List.find?_eq_none]
  intro r hr heq
  have hr : r ∈ I.store.records d := by
    rw [Store.records, hs]
    exact hr
  obtain ⟨hpath, hlen⟩ := h.path_eq hd hr
  -- the field of a record ends with a zero, the overlong name fills the field
  have hfield : nameField defaultFsInfo name = name := by
    rw [nameField, defaultFsInfo_maxPathLen, Nat.sub_eq_zero_of_le hlong]
    exact List.append_nil name
  rw [decide_eq_true_iff, hfield] at heq
  apply hz
  rw [← heq, hpath, nameField, defaultFsInfo_maxPathLen, List.mem_append, List.mem_replicate]
  exact Or.inr ⟨by omega, rfl⟩

/-- How a creation with such a name ends. -/
theorem Ok.create_overlong (h : I.Ok) (isFile : Bool) (path : CString) {p : Nat} {s : Slot}
    {name : List UInt8} (hsite : I.store.site path.bytes = .done (some (p, s, name)))
    (hlong : 16 ≤ name.length) :
    (I.create isFile path.bytes).outcome = .halted .memoryError ↔
      ¬ (¬ s.Mixed ∧ isFile = true ∧ 0 < I.store.freeInodes ∧ 0 < I.store.freeBlocks ∧
        s.info.recordsCount = 6) := by
  obtain ⟨parentPath, inode, hsplit, _, hget, hkind, hs⟩ := Store.site_eq_iff.mp hsite
  have hfind := h.find_overlong (h.site_dir hsite).1 hs (splitPath_done path.nulFree hsplit).2 hlong
  have hfreeI : I.store.freeInodes = free I.sb.reservedInodesMask := rfl
  have hfreeB : I.store.freeBlocks = free I.sb.reservedBlocksMask := rfl
  rw [store_inodes] at hget
  rw [create_eq, hsite]
  simp only [createIn, hget, hs, hkind, hfind, Bool.false_eq_true, if_false, Option.isSome_none]
  by_cases hmixed : s.Mixed
  · simp [hmixed, Image.unchanged]
  rw [if_neg hmixed]
  rcases hn : firstFree I.sb.reservedInodesMask with _ | n
  · simp [hmixed, Image.unchanged, hfreeI, firstFree_eq_none_iff.mp hn]
  rcases hb : firstFree I.sb.reservedBlocksMask with _ | b
  · simp [hmixed, Image.unchanged, hfreeB, firstFree_eq_none_iff.mp hb]
  have hposI := free_pos_of_firstFree hn
  have hposB := free_pos_of_firstFree hb
  simp only [hfreeI, hfreeB, hposI, hposB, hmixed, not_false_eq_true, true_and, if_pos hlong]
  by_cases hfull : s.info.recordsCount = 6
  · cases isFile <;> simp [hfull]
  · simp [hfull]

end Image

/-! ### The result -/

/-- **Names.**  In every image that commands reach without a host file written onto it the names
    are faithful, and for every path the client can pass a creation keeps them so exactly when a
    name that does not fit a record does not crash it. -/
theorem keepsNames_iff {w : World} (hw : Reachable w) (isFile : Bool) (path : CString)
    (hclient : path.bytes.length < commandBufferLength) :
    KeepsNames w isFile path ↔ ¬ w.store.CrashesOverlong isFile path.bytes := by
  obtain ⟨I, hI, hdist, hstore⟩ := hw.invariant Image.Distinct Image.distinct_formatted
    fun I F c hI hdist => hI.distinct_after F c hdist
  have hlen : path.bytes.length < 2 ^ 16 := hclient.trans (by decide)
  rw [hstore]
  generalize w.files = F
  constructor
  · -- an overlong name that is stored is a memory error, which the property excludes
    intro hkeeps hover
    unfold Store.CrashesOverlong at hover
    split at hover
    · rename_i p s name hsite
      obtain ⟨hlong, hover⟩ := hover
      apply (hkeeps.rejected p s name hsite hlong).2
      rw [hI.exec_create]
      rw [← Store.site_last hlen hsite] at hlong
      exact (hI.create_overlong isFile path hsite hlong).mpr hover
    · exact hover
  · -- without one, names are stored as they are or rejected
    intro hfits
    refine ⟨hI.namesFaithful hdist, fun p s name hsite => ?_, fun p s name hsite => ?_⟩
    · obtain ⟨_, _, hsplit, _⟩ := Store.site_eq_iff.mp hsite
      dsimp only
      rw [hI.exec_create, ← Store.site_last hlen hsite]
      refine (hI.created_records isFile path hsite).imp id ?_
      rintro ⟨_, n, hadded⟩
      exact ⟨_, hadded, name_nameField (splitPath_done path.nulFree hsplit).2⟩
    · intro r hlong
      have hname := Store.site_last hlen hsite
      constructor
      · show (exec (createCommand isFile path.bytes) ⟨I.store, F⟩).2.store.records p = _
        rw [hI.exec_create]
        refine (hI.created_records isFile path hsite).resolve_right ?_
        rintro ⟨hshort, _⟩
        rw [hname] at hshort
        exact absurd hlong (Nat.not_le.mpr hshort)
      · show (exec (createCommand isFile path.bytes) ⟨I.store, F⟩).1 ≠ _
        rw [hI.exec_create]
        intro hhalts
        apply hfits
        unfold Store.CrashesOverlong
        rw [hsite]
        exact ⟨hlong, (hI.create_overlong isFile path hsite (hname ▸ hlong)).mp hhalts⟩

/-- A name of fifteen bytes fits. -/
theorem keepsNames_fifteen :
    KeepsNames ((World.mk .blank .onlyImage).step .init) true
      ⟨47 :: List.replicate 15 97, by decide⟩ :=
  (keepsNames_iff (Reachable.init _) true _ (by decide)).mpr (by decide +kernel)

/-- A path with a name of sixteen bytes. -/
def overlongPath : CString := ⟨47 :: List.replicate 16 97, by decide⟩

/-- A creation whose last component does not fit a record, and that ends in a memory error. -/
theorem not_keepsNames_of_halts {w : World} {isFile : Bool} {path : CString}
    (hsite : (match w.store.site path.bytes with
      | .done (some _) => true
      | _ => false) = true)
    (hlong : 16 ≤ (lastComponent path.bytes).length)
    (hhalts : (exec (createCommand isFile path.bytes) w).1 = .halted .memoryError) :
    ¬ KeepsNames w isFile path := by
  intro hkeeps
  split at hsite
  · rename_i r heq
    exact (hkeeps.rejected r.1 r.2.1 r.2.2 heq hlong).2 hhalts
  · cases hsite

/-- In a fresh image, `touch` with a name of sixteen bytes writes past the field of the new
    record. -/
theorem not_keepsNames_overlong :
    Reachable ((World.mk .blank .onlyImage).step .init) ∧
      overlongPath.bytes.length < commandBufferLength ∧
      ¬ KeepsNames ((World.mk .blank .onlyImage).step .init) true overlongPath :=
  ⟨Reachable.init _, by decide, not_keepsNames_of_halts (by decide +kernel) (by decide +kernel)
    (by decide +kernel)⟩

end MiniExt
