import MiniExt.Properties.ReadWrite
import MiniExt.Runs.Frames

namespace MiniExt

open Lib

/-!
# The descriptor table

`reserve_descriptor` compares an inode with every slot, reserved or not.  That is right
because a slot that is not reserved always holds the number of the root, which nobody can
open: every command that stores the table keeps its free slots zeroed.

* `DescriptorsTable.Sound` — the property of the table;
* `DescriptorsTable.Step` — what one command can do to it;
* `descriptor_table_sound` — every reachable table is sound, and reservation is exact.
-/

/-- Free slots are zeroed; a reserved slot holds a reserved inode that is not the root, and
    no other slot holds it. -/
structure DescriptorsTable.Sound (dt : DescriptorsTable) (st : Store) : Prop where
  zeroed : ∀ {fd : Nat}, dt.reservedFd[fd]? = some false →
    dt.fdToInode[fd]? = some 0 ∧ dt.fdToPosition[fd]? = some 0
  held : ∀ {fd : Nat}, dt.reservedFd[fd]? = some true →
    ∃ i, dt.fdToInode[fd]? = some i ∧ i ≠ rootInodeId ∧ st.InodeReserved i
  once : ∀ {fd fd' i : Nat}, dt.reservedFd[fd]? = some true → dt.reservedFd[fd']? = some true →
    dt.fdToInode[fd]? = some i → dt.fdToInode[fd']? = some i → fd = fd'

/-- `reserve_descriptor` finds a slot for an inode exactly when no reserved slot holds it and
    some slot is free; it hands out a free slot, at position 0, and leaves the others alone. -/
structure DescriptorsTable.ReservesExactly (dt : DescriptorsTable) (i : Nat) : Prop where
  succeeds : (∃ fd dt', reserveDescriptor dt i = some (fd, dt')) ↔
    (∀ fd : Nat, dt.reservedFd[fd]? = some true → dt.fdToInode[fd]? ≠ some i) ∧
      ∃ fd : Nat, dt.reservedFd[fd]? = some false
  result : ∀ {fd : Nat} {dt' : DescriptorsTable}, reserveDescriptor dt i = some (fd, dt') →
    dt.reservedFd[fd]? = some false ∧ dt'.Entry fd i 0 ∧
      ∀ fd' : Nat, fd' ≠ fd → dt'.reservedFd[fd']? = dt.reservedFd[fd']? ∧
        dt'.fdToInode[fd']? = dt.fdToInode[fd']? ∧ dt'.fdToPosition[fd']? = dt.fdToPosition[fd']?

/-! ### What commands do to the table -/

/-- The changes of the table that commands make. -/
inductive DescriptorsTable.Step (dt : DescriptorsTable) : DescriptorsTable → Prop where
  | same : dt.Step dt
  | moved {fd : Nat} (pos : Nat) (hres : dt.reservedFd[fd]? = some true) :
    dt.Step { dt with fdToPosition := dt.fdToPosition.set fd pos }
  | reserved {i fd : Nat} {dt' : DescriptorsTable}
    (hdt : reserveDescriptor dt i = some (fd, dt')) : dt.Step dt'
  | freed (fd : Nat) : dt.Step (freeDescriptor dt fd)

/-- The free slots of a table are at position 0. -/
def DescriptorsTable.Zeroed (dt : DescriptorsTable) : Prop :=
  ∀ {fd : Nat}, dt.reservedFd[fd]? = some false → dt.fdToPosition[fd]? = some 0

/-- A slot that stays free keeps its position. -/
theorem DescriptorsTable.Step.zeroed {dt dt' : DescriptorsTable} (hstep : dt.Step dt')
    (hlen : dt.fdToPosition.length = dt.reservedFd.length) (hz : dt.Zeroed) : dt'.Zeroed := by
  intro fd' hfree
  cases hstep with
  | same => exact hz hfree
  | @moved fd pos hres =>
    -- the position that moves is of a reserved descriptor
    have hne : fd ≠ fd' := by
      rintro rfl
      rw [hres] at hfree
      cases hfree
    exact (List.getElem?_set_ne hne).trans (hz hfree)
  | @reserved i fd _ hdt =>
    obtain ⟨_, _, rfl⟩ := reserveDescriptor_eq hdt
    rw [List.getElem?_set] at hfree ⊢
    split at hfree
    · split at hfree
      · cases hfree
      · cases hfree
    · rename_i hne
      rw [if_neg hne]
      exact hz hfree
  | freed fd =>
    unfold freeDescriptor at hfree ⊢
    split at hfree
    · rename_i hres
      rw [if_pos hres]
      by_cases hne : fd = fd'
      · subst hne
        apply List.getElem?_set_self
        rw [hlen]
        exact (List.getElem?_eq_some_iff.mp hres).1
      · rw [List.getElem?_set_ne hne] at hfree ⊢
        exact hz hfree
    · rename_i hres
      rw [if_neg hres]
      exact hz hfree

namespace Image

variable {I : Image}

/-- **Every command** but `init` changes the table in one of these ways. -/
theorem Ok.step_table (h : I.Ok) (F : HostFiles) {c : Command} (hc : c ≠ .init) :
    I.dt.Step (I.after F c).dt := by
  -- a write and a read move the position of their descriptor, or leave the table alone
  have hwrite : ∀ fd data, I.dt.Step (I.written fd data).dt := by
    intro fd data
    rcases h.write_cases fd data with ⟨_, _, heq⟩ | ⟨_, _, heq⟩ |
      ⟨i, pos, r, hres, _, _, hrun, _, heq⟩
    · rw [heq]
      exact .same
    · rw [heq]
      exact .same
    · rw [heq, WriteEnd.settled]
      split
      · rw [hrun.dt]
        exact .same
      · rw [Image.setPosition, setTable_dt, hrun.dt]
        exact .moved r.pos hres
  have hread : ∀ fd size capacity, I.dt.Step (I.read fd size capacity).2.dt := by
    intro fd size capacity
    rcases h.read_cases fd size capacity with ⟨_, heq⟩ | ⟨_, heq⟩ | ⟨i, pos, hres, _, _, heq⟩
    · rw [heq]
      exact .same
    · rw [heq]
      exact .same
    · rw [heq]
      split
      · exact .moved _ hres
      · exact .same
  cases c with
  | init => exact absurd rfl hc
  | readFs => exact .same
  | ls path => exact .same
  | mkdir path =>
    rw [Image.after, h.create_dt]
    exact .same
  | touch path =>
    rw [Image.after, h.create_dt]
    exact .same
  | «open» path =>
    rcases h.openPath_cases path.bytes with ⟨heq, _⟩ | ⟨i, fd, dt, heq, _, _, hdt⟩
    · rw [Image.after, heq]
      exact .same
    · rw [Image.after, heq]
      exact .reserved hdt
  | close fd =>
    simp only [Image.after, closeFd]
    split
    · exact .freed fd
    · exact .same
  | write fd data => exact hwrite fd data
  | writeFrom fd path =>
    simp only [Image.after]
    split
    · exact hwrite fd _
    · exact .same
  | read fd size => exact hread fd size _
  | readTo fd path size => exact hread fd _ _
  | lseek fd pos =>
    simp only [Image.after, seek]
    split
    · exact .same
    · exact .same
    · rename_i hres
      split
      · exact .same
      · exact .moved pos hres

/-- The table of a new image has zeros in its unused entries. -/
theorem zeroed_formatted : formatted.dt.Zeroed := by
  show (initDescriptorsTable defaultFsInfo).Zeroed
  intro fd hfree
  have hlt := (List.getElem?_eq_some_iff.mp hfree).1
  rw [initDescriptorsTable, List.length_replicate] at hlt
  exact (List.getElem?_replicate_of_lt hlt)

/-- The positions of free slots, after one command. -/
theorem Ok.zeroed_after (h : I.Ok) (F : HostFiles) (c : Command) (hz : I.dt.Zeroed) :
    (I.after F c).dt.Zeroed := by
  by_cases hc : c = .init
  · rw [hc]
    exact zeroed_formatted
  · exact (h.step_table F hc).zeroed (h.table.positionLength.trans h.table.fdLength.symm) hz

/-- A table of an image that keeps the invariant is sound. -/
theorem Ok.table_sound (h : I.Ok) (hz : I.dt.Zeroed) : I.dt.Sound I.store := by
  have hposition : ∀ {fd : Nat}, I.dt.reservedFd[fd]? = some true →
      ∃ i p, I.dt.Entry fd i p := by
    intro fd hres
    have hlt := (List.getElem?_eq_some_iff.mp hres).1
    rw [h.table.fdLength] at hlt
    exact ⟨_, _, hres, List.getElem?_eq_getElem (h.table.inodeLength.symm ▸ hlt),
      List.getElem?_eq_getElem (h.table.positionLength.symm ▸ hlt)⟩
  refine ⟨fun hfree => ⟨h.table.unused hfree, hz hfree⟩, fun hres => ?_,
    fun {fd fd' i} hres hres' hi hi' => ?_⟩
  · obtain ⟨i, p, hent⟩ := hposition hres
    obtain ⟨htaken, hroot⟩ := h.descriptor hres hent.refers
    exact ⟨i, hent.refers, hroot, htaken⟩
  · obtain ⟨j, p, hent⟩ := hposition hres
    obtain ⟨j', p', hent'⟩ := hposition hres'
    obtain rfl : j = i := Option.some.inj (hent.refers.symm.trans hi)
    obtain rfl : j' = j := Option.some.inj (hent'.refers.symm.trans hi')
    exact h.table.distinct hent hent'

end Image

/-- **Reservation is exact** in a sound table, for every inode but the root. -/
theorem DescriptorsTable.Sound.reservesExactly {dt : DescriptorsTable} {st : Store}
    (h : dt.Sound st) (hlen : dt.reservedFd.length = 16) (hinodes : dt.fdToInode.length = 16)
    (hpositions : dt.fdToPosition.length = 16) {i : Nat} (hi : i ≠ rootInodeId) :
    dt.ReservesExactly i := by
  -- a slot that is not reserved does not hold the inode
  have hmem : i ∈ dt.fdToInode ↔
      ∃ fd : Nat, dt.reservedFd[fd]? = some true ∧ dt.fdToInode[fd]? = some i := by
    rw [List.mem_iff_getElem?]
    constructor
    · rintro ⟨fd, hfd⟩
      have hlt := (List.getElem?_eq_some_iff.mp hfd).1
      rw [hinodes, ← hlen] at hlt
      refine ⟨fd, ?_, hfd⟩
      rw [List.getElem?_eq_getElem hlt]
      by_contra hfree
      have hzero := (h.zeroed (show dt.reservedFd[fd]? = some false by
        rw [List.getElem?_eq_getElem hlt]
        simpa using hfree)).1
      rw [hfd] at hzero
      exact hi (Option.some.inj hzero)
    · rintro ⟨fd, _, hfd⟩
      exact ⟨fd, hfd⟩
  constructor
  · unfold reserveDescriptor
    constructor
    · rintro ⟨fd, dt', hdt⟩
      split at hdt
      · cases hdt
      rename_i hnot
      split at hdt
      · rename_i fd₀ hfd
        exact ⟨fun fd' hres hheld => hnot (hmem.mpr ⟨fd', hres, hheld⟩), fd₀,
          getElem?_firstFree hfd⟩
      · cases hdt
    · rintro ⟨hnobody, fd, hfree⟩
      have hnot : i ∉ dt.fdToInode := by
        intro hin
        obtain ⟨fd', hres, hheld⟩ := hmem.mp hin
        exact hnobody fd' hres hheld
      obtain ⟨fd₀, hfirst⟩ := exists_firstFree hfree
      rw [if_neg hnot, hfirst]
      exact ⟨fd₀, _, rfl⟩
  · intro fd dt' hdt
    have hentry := entry_reserved_self (hinodes.trans hlen.symm) (hpositions.trans hlen.symm) hdt
    obtain ⟨_, hfree, rfl⟩ := reserveDescriptor_eq hdt
    refine ⟨hfree, hentry, fun fd' hne => ?_⟩
    exact ⟨List.getElem?_set_ne hne.symm, List.getElem?_set_ne hne.symm,
      List.getElem?_set_ne hne.symm⟩

/-- **The descriptor table** of every image that runs reach is sound, and reserving a
    descriptor for an inode other than the root succeeds exactly when it should. -/
theorem descriptor_table_sound {w : World} (hw : Reachable w) :
    ∃ dt, w.store.descriptorsTable = some dt ∧ dt.Sound w.store ∧
      ∀ i, i ≠ rootInodeId → dt.ReservesExactly i := by
  obtain ⟨I, hI, hz, hstore⟩ := hw.invariant (fun I => I.dt.Zeroed)
    Image.zeroed_formatted fun I F c h hz => h.zeroed_after F c hz
  rw [hstore]
  have hsound := hI.table_sound hz
  exact ⟨I.dt, rfl, hsound, fun i hi => hsound.reservesExactly hI.table.fdLength
    hI.table.inodeLength hI.table.positionLength hi⟩

/-- A run that opens a file. -/
theorem descriptor_table_sound_opened :
    ∃ dt, openedWorld.store.descriptorsTable = some dt ∧ dt.Sound openedWorld.store ∧
      ∀ i, i ≠ rootInodeId → dt.ReservesExactly i :=
  descriptor_table_sound reachable_openedWorld

end MiniExt
