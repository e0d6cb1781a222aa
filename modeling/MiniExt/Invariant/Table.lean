import MiniExt.Image

namespace MiniExt

open Lib

/-!
# Entries of the descriptor table

A reserved descriptor with its inode and its position is an entry of the table.  Each
change of the table is a change of its entries.

* `DescriptorsTable.Entry` — the entries;
* `entry_reserveDescriptor`, `entry_freeDescriptor`, `entry_setPosition` — the changes;
* `DescriptorsTable.MovedAt` — the tables that reads, writes and `lseek` leave.
-/

/-- Descriptor `fd` is reserved for inode `i`, at position `pos`. -/
structure DescriptorsTable.Entry (dt : DescriptorsTable) (fd i pos : Nat) : Prop where
  reserved : dt.reservedFd[fd]? = some true
  refers : dt.fdToInode[fd]? = some i
  position : dt.fdToPosition[fd]? = some pos

/-- A descriptor on disk is an entry of the table in memory. -/
theorem Image.descriptor_iff {I : Image} {fd i pos : Nat} :
    I.store.Descriptor fd i pos ↔ I.dt.Entry fd i pos :=
  ⟨fun h => ⟨h.1, h.2.1, h.2.2⟩, fun h => ⟨h.reserved, h.refers, h.position⟩⟩

variable {dt dt' : DescriptorsTable} {fd fd' i j p pos : Nat}

/-- Entries under one descriptor are one entry. -/
theorem DescriptorsTable.Entry.unique (h : dt.Entry fd i p) (h' : dt.Entry fd j pos) :
    i = j ∧ p = pos :=
  ⟨Option.some.inj (h.refers.symm.trans h'.refers),
    Option.some.inj (h.position.symm.trans h'.position)⟩

/-- A descriptor is open for one inode. -/
theorem Store.Descriptor.unique {st : Store} (h : st.Descriptor fd i p)
    (h' : st.Descriptor fd j pos) : i = j := by
  unfold Store.Descriptor at h h'
  split at h
  · rename_i hdt
    simp only [hdt] at h'
    exact Option.some.inj (h.2.1.symm.trans h'.2.1)
  · exact h.elim

/-- What an occupied descriptor leaves of the others. -/
theorem entry_set_ne {bs : List Bool} {is ps : List Nat} {b : Bool} (hne : fd' ≠ fd) :
    DescriptorsTable.Entry ⟨bs.set fd b, is.set fd i, ps.set fd pos⟩ fd' j p ↔
      DescriptorsTable.Entry ⟨bs, is, ps⟩ fd' j p := by
  constructor
  · rintro ⟨hres, hrefers, hpos⟩
    rw [List.getElem?_set_ne (Ne.symm hne)] at hres hrefers hpos
    exact ⟨hres, hrefers, hpos⟩
  · rintro ⟨hres, hrefers, hpos⟩
    exact ⟨by rwa [List.getElem?_set_ne (Ne.symm hne)], by rwa [List.getElem?_set_ne (Ne.symm hne)],
      by rwa [List.getElem?_set_ne (Ne.symm hne)]⟩

/-- `reserve` occupies a free descriptor, for an inode that no slot holds. -/
theorem reserveDescriptor_eq (hdt : reserveDescriptor dt i = some (fd, dt')) :
    i ∉ dt.fdToInode ∧ dt.reservedFd[fd]? = some false ∧
      dt' = ⟨dt.reservedFd.set fd true, dt.fdToInode.set fd i, dt.fdToPosition.set fd 0⟩ := by
  unfold reserveDescriptor at hdt
  split at hdt
  · cases hdt
  rename_i hnotin
  split at hdt
  · rename_i fd₀ hfd
    cases hdt
    exact ⟨hnotin, getElem?_firstFree hfd, rfl⟩
  · cases hdt

/-- **`reserve`** adds an entry at position 0. -/
theorem entry_reserveDescriptor (hdt : reserveDescriptor dt i = some (fd, dt'))
    (h : dt'.Entry fd' j p) : fd' = fd ∧ j = i ∧ p = 0 ∨ fd' ≠ fd ∧ dt.Entry fd' j p := by
  obtain ⟨_, _, rfl⟩ := reserveDescriptor_eq hdt
  by_cases hne : fd' = fd
  · subst hne
    obtain ⟨_, hrefers, hpos⟩ := h
    rw [List.getElem?_set] at hrefers hpos
    simp only [if_true] at hrefers hpos
    split at hrefers
    · split at hpos
      · exact Or.inl ⟨rfl, (Option.some.inj hrefers).symm, (Option.some.inj hpos).symm⟩
      · cases hpos
    · cases hrefers
  · exact Or.inr ⟨hne, (entry_set_ne hne).mp h⟩

/-- The entry it adds. -/
theorem entry_reserved_self (hinodes : dt.fdToInode.length = dt.reservedFd.length)
    (hpositions : dt.fdToPosition.length = dt.reservedFd.length)
    (hdt : reserveDescriptor dt i = some (fd, dt')) : dt'.Entry fd i 0 := by
  obtain ⟨_, hfree, rfl⟩ := reserveDescriptor_eq hdt
  have hlt := (List.getElem?_eq_some_iff.mp hfree).1
  exact ⟨List.getElem?_set_self hlt, List.getElem?_set_self (by rwa [hinodes]),
    List.getElem?_set_self (by rwa [hpositions])⟩

/-- The entries `reserve` finds stay. -/
theorem DescriptorsTable.Entry.reserveDescriptor (h : dt.Entry fd' j p)
    (hdt : MiniExt.reserveDescriptor dt i = some (fd, dt')) : fd' ≠ fd ∧ dt'.Entry fd' j p := by
  obtain ⟨_, hfree, rfl⟩ := reserveDescriptor_eq hdt
  have hne : fd' ≠ fd := by
    rintro rfl
    have hres := h.reserved
    rw [hfree] at hres
    cases hres
  exact ⟨hne, (entry_set_ne hne).mpr h⟩

/-- **`free`** removes the entry of its descriptor. -/
theorem entry_freeDescriptor :
    (freeDescriptor dt fd).Entry fd' j p ↔ fd' ≠ fd ∧ dt.Entry fd' j p := by
  unfold freeDescriptor
  split
  · by_cases hne : fd' = fd
    · subst hne
      refine iff_of_false (fun h => ?_) (fun h => h.1 rfl)
      have hres := h.reserved
      rw [List.getElem?_set] at hres
      simp at hres
    · rw [entry_set_ne hne]
      exact ⟨fun h => ⟨hne, h⟩, fun h => h.2⟩
  · rename_i hfree
    exact ⟨fun h => ⟨fun heq => hfree (heq ▸ h.reserved), h⟩, fun h => h.2⟩

/-- **A position that is set** is the one of its entry; the others keep theirs. -/
theorem entry_setPosition :
    DescriptorsTable.Entry { dt with fdToPosition := dt.fdToPosition.set fd pos } fd' j p ↔
      (fd' = fd ∧ p = pos ∧ ∃ p₀, dt.Entry fd' j p₀) ∨ fd' ≠ fd ∧ dt.Entry fd' j p := by
  by_cases hne : fd' = fd
  · subst hne
    constructor
    · rintro ⟨hres, hrefers, hpos⟩
      rw [List.getElem?_set] at hpos
      simp only [if_true] at hpos
      split at hpos
      · rename_i hlt
        exact Or.inl ⟨rfl, (Option.some.inj hpos).symm, _, hres, hrefers,
          List.getElem?_eq_getElem hlt⟩
      · cases hpos
    · rintro (⟨_, rfl, p₀, hres, hrefers, hpos⟩ | ⟨hne, _⟩)
      · exact ⟨hres, hrefers, List.getElem?_set_self (List.getElem?_eq_some_iff.mp hpos).1⟩
      · exact absurd rfl hne
  · constructor
    · rintro ⟨hres, hrefers, hpos⟩
      rw [List.getElem?_set_ne (Ne.symm hne)] at hpos
      exact Or.inr ⟨hne, hres, hrefers, hpos⟩
    · rintro (⟨heq, _⟩ | ⟨_, hres, hrefers, hpos⟩)
      · exact absurd heq hne
      · exact ⟨hres, hrefers, by rwa [List.getElem?_set_ne (Ne.symm hne)]⟩

/-- Only the position of one descriptor may differ. -/
def DescriptorsTable.MovedAt (dt : DescriptorsTable) (fd : Nat) (dt' : DescriptorsTable) : Prop :=
  dt' = dt ∨ ∃ p, dt' = { dt with fdToPosition := dt.fdToPosition.set fd p }

/-- A table with a moved position has the same entries, up to that position. -/
theorem DescriptorsTable.MovedAt.entry (h : dt.MovedAt fd dt') (hent : dt'.Entry fd' i p) :
    (∃ p₀, dt.Entry fd' i p₀) ∧ (fd' ≠ fd → dt.Entry fd' i p) := by
  rcases h with rfl | ⟨q, rfl⟩
  · exact ⟨⟨p, hent⟩, fun _ => hent⟩
  · rcases entry_setPosition.mp hent with ⟨rfl, _, hold⟩ | ⟨_, hold⟩
    · exact ⟨hold, fun hne => absurd rfl hne⟩
    · exact ⟨⟨p, hold⟩, fun _ => hold⟩

/-- The entries of the other descriptors stay. -/
theorem DescriptorsTable.Entry.movedAt (hent : dt.Entry fd' i p) (h : dt.MovedAt fd dt')
    (hne : fd' ≠ fd) : dt'.Entry fd' i p := by
  rcases h with rfl | ⟨q, rfl⟩
  · exact hent
  · exact entry_setPosition.mpr (Or.inr ⟨hne, hent⟩)

end MiniExt
