import MiniExt.Runs.Commands
import MiniExt.Invariant.Files

namespace MiniExt

open Lib

/-!
# What commands leave alone

A creation changes the directory of the new name, a write changes the inode of its
descriptor, and the other commands change the descriptor table.

* `Ok.sameInode_created`, `Ok.sameInode_written` — the inodes that stay as they are;
* `Ok.movedAt_written`, `movedAt_read`, `movedAt_seek` — the entries that stay as they are;
* `Ok.sameInode_after`, `Ok.entry_after` — both, for every command.
-/

/-- Neither `init` nor a command on descriptor `f`. -/
def Command.Foreign (f : Nat) : Command → Prop
  | .init => False
  | .close fd | .write fd _ | .writeFrom fd _ | .read fd _ | .readTo fd _ _ | .lseek fd _ => fd ≠ f
  | .readFs | .ls _ | .mkdir _ | .touch _ | .open _ => True

/-- The inode a command acts on: the one of its descriptor, when it writes, and the directory
    it creates a name in. -/
def Store.ActsOn (st : Store) (c : Command) (j : Nat) : Prop :=
  match c with
  | .write fd _ | .writeFrom fd _ => ∃ p, st.Descriptor fd j p
  | .mkdir path | .touch path => ∃ s name, st.site path.bytes = .done (some (j, s, name))
  | _ => False

/-- The commands that store nothing but the descriptor table, if anything. -/
def Command.TableOnly : Command → Prop
  | .readFs | .ls _ | .open _ | .close _ | .read _ _ | .readTo _ _ _ | .lseek _ _ => True
  | .init | .mkdir _ | .touch _ | .write _ _ | .writeFrom _ _ => False

namespace Image

variable {I : Image} {isFile : Bool} {path : List UInt8} {fd j : Nat} {data : List UInt8}

/-- The first block of an inode that stays as it is. -/
theorem SameInode.firstSlot {J : Image} (hsame : SameInode j I J) (h : I.Ok)
    (hj : Taken I.sb.reservedInodesMask j) : J.store.firstSlot j = I.store.firstSlot j := by
  obtain ⟨inode, hget, hok⟩ := h.layout.inode hj
  obtain ⟨b, s, hb, _, hs, _⟩ := hok.getElem hok.count_pos
  have hmem : b ∈ inode.blocks := mem_blocks.mpr ⟨0, hok.count_pos, hb⟩
  rw [firstSlot_eq (block_eq hget hb hs)]
  exact firstSlot_eq
    (block_eq (hsame.inode.trans hget) hb ((hsame.slots inode hget b hmem).trans hs))

/-! ### Creations -/

/-- A creation keeps the table. -/
theorem Ok.create_dt (h : I.Ok) (isFile : Bool) (path : List UInt8) :
    (I.create isFile path).image.dt = I.dt := by
  have hrun := h.createRun isFile path
  generalize I.create isFile path = e at hrun
  cases hrun with
  | unchanged o => rfl
  | leaked o hat hfull => rfl
  | linked hat hroom hshort =>
    rw [hat.link_eq h]
    rfl

/-- What was reserved stays reserved. -/
theorem CreateAt.taken_alloc {p n b b₀ : Nat} {name : List UInt8} {s : Slot}
    (hat : I.CreateAt path p name n b b₀ s) (isFile : Bool) (hj : Taken I.sb.reservedInodesMask j) :
    Taken (I.alloc isFile p n b).sb.reservedInodesMask j :=
  (taken_set (firstFree_eq_some_iff.mp hat.inodeFree).1).mpr (Or.inr hj)

/-- A new inode leaves the reserved ones alone. -/
theorem CreateAt.sameInode_alloc {p n b b₀ : Nat} {name : List UInt8} {s : Slot}
    (hat : I.CreateAt path p name n b b₀ s) (h : I.Ok) (isFile : Bool)
    (hj : Taken I.sb.reservedInodesMask j) : SameInode j I (I.alloc isFile p n b) := by
  obtain ⟨hinodes, hslots⟩ := Ok.alloc_frame isFile p hat.inodeFree hat.blockFree
  exact h.sameInode_scratch hj (hinodes j hj) hslots

/-- A new record leaves every inode but its directory alone. -/
theorem CreateAt.sameInode_link {p n b b₀ : Nat} {name : List UInt8} {s : Slot}
    (hat : I.CreateAt path p name n b b₀ s) (h : I.Ok) (isFile : Bool) (r : BlockRecord)
    (hj : Taken (I.alloc isFile p n b).sb.reservedInodesMask j) (hne : j ≠ p) :
    SameInode j (I.alloc isFile p n b) ((I.alloc isFile p n b).link p r) := by
  have hJ := hat.alloc_ok h isFile
  have hp := hat.taken_alloc isFile hat.dir.1
  obtain ⟨inode, hget, hok⟩ := hJ.layout.inode hp
  obtain ⟨inode', hget', hb, _⟩ := block_cases (hat.block_alloc h isFile)
  rw [hget] at hget'
  cases hget'
  rw [hat.link_eq h]
  exact hJ.sameInode_setSlot hp hj hne hget hok.count_pos hb _

/-- **A creation** leaves every inode alone but the directory of the new name. -/
theorem Ok.sameInode_created (h : I.Ok) (isFile : Bool) (path : List UInt8)
    (hj : Taken I.sb.reservedInodesMask j)
    (hsite : ¬ ∃ s name, I.store.site path = .done (some (j, s, name))) :
    SameInode j I (I.create isFile path).image := by
  have hrun := h.createRun isFile path
  generalize I.create isFile path = e at hrun
  cases hrun with
  | unchanged o => exact SameInode.refl j I
  | leaked o hat hfull => exact hat.sameInode_alloc h isFile hj
  | linked hat hroom hshort =>
    apply (hat.sameInode_alloc h isFile hj).trans
    apply hat.sameInode_link h isFile _ (hat.taken_alloc isFile hj)
    rintro rfl
    exact hsite ⟨_, _, hat.site⟩

/-! ### Writes, reads and positions -/

/-- **A write** leaves every inode alone that is not the one of its descriptor. -/
theorem Ok.sameInode_written (h : I.Ok) (fd : Nat) (data : List UInt8)
    (hj : Taken I.sb.reservedInodesMask j) (hne : ∀ p, ¬ I.dt.Entry fd j p) :
    SameInode j I (I.written fd data) := by
  rcases h.write_cases fd data with ⟨_, _, heq⟩ | ⟨_, _, heq⟩ |
    ⟨i, pos, r, hres, hi, hpos, hrun, _, heq⟩
  · rw [heq]
    exact SameInode.refl j I
  · rw [heq]
    exact SameInode.refl j I
  have hji : j ≠ i := by
    rintro rfl
    exact hne pos ⟨hres, hi, hpos⟩
  have hsame := hrun.sameInode h (h.descriptor hres hi).1 hj hji
  rw [heq, WriteEnd.settled]
  split
  · exact hsame
  · exact ⟨hsame.inode, hsame.slots⟩

/-- No directory notices it. -/
theorem Ok.sameTree_written (h : I.Ok) (fd : Nat) (data : List UInt8) :
    SameTree I (I.written fd data) := by
  rcases h.write_cases fd data with ⟨_, _, heq⟩ | ⟨_, _, heq⟩ |
    ⟨i, pos, r, hres, hi, _, hrun, _, heq⟩
  · rw [heq]
    exact SameTree.refl I
  · rw [heq]
    exact SameTree.refl I
  · have hsame := hrun.sameTree h (h.descriptor hres hi).1
    rw [heq, WriteEnd.settled]
    split
    · exact hsame
    · exact ⟨hsame.grows, hsame.live, hsame.dir, hsame.records⟩

/-- It moves the position of its descriptor. -/
theorem Ok.movedAt_written (h : I.Ok) (fd : Nat) (data : List UInt8) :
    I.dt.MovedAt fd (I.written fd data).dt := by
  rcases h.write_cases fd data with ⟨_, _, heq⟩ | ⟨_, _, heq⟩ |
    ⟨i, pos, r, _, _, _, hrun, _, heq⟩
  · rw [heq]
    exact Or.inl rfl
  · rw [heq]
    exact Or.inl rfl
  · rw [heq, WriteEnd.settled]
    split
    · exact Or.inl hrun.dt
    · refine Or.inr ⟨r.pos, ?_⟩
      simp only [Image.setPosition, setTable_dt, hrun.dt]

/-- A read moves one position. -/
theorem movedAt_read (I : Image) (fd size capacity : Nat) :
    I.dt.MovedAt fd (I.read fd size capacity).2.dt := by
  rcases I.read_image fd size capacity with heq | ⟨p, heq⟩
  · rw [heq]
    exact Or.inl rfl
  · rw [heq]
    exact Or.inr ⟨p, rfl⟩

/-- A seek moves one position. -/
theorem movedAt_seek (I : Image) (fd pos : Nat) : I.dt.MovedAt fd (I.seek fd pos).2.dt := by
  rcases I.seek_image fd pos with heq | heq
  · rw [heq]
    exact Or.inl rfl
  · rw [heq]
    exact Or.inr ⟨pos, rfl⟩

/-! ### Every command -/

/-- What such a command leaves. -/
theorem Ok.after_tableOnly (h : I.Ok) (F : HostFiles) {c : Command} (hc : c.TableOnly) :
    I.after F c = I.setTable (I.after F c).dt := by
  have hmoved : ∀ {J : Image}, (J = I ∨ ∃ fd p, J = I.setPosition fd p) → J = I.setTable J.dt := by
    rintro J (rfl | ⟨fd, p, rfl⟩)
    · rfl
    · rfl
  have hread : ∀ fd size capacity, (I.read fd size capacity).2 =
      I.setTable (I.read fd size capacity).2.dt := by
    intro fd size capacity
    exact hmoved ((I.read_image fd size capacity).imp id fun heq => ⟨fd, heq⟩)
  cases c with
  | readFs => rfl
  | ls path => rfl
  | «open» path =>
    rcases h.openPath_cases path.bytes with ⟨heq, _⟩ | ⟨i, fd, dt, heq, _⟩
    · rw [Image.after, heq]
      rfl
    · rw [Image.after, heq]
      rfl
  | close fd =>
    simp only [Image.after, closeFd]
    split
    · rfl
    · rfl
  | read fd size => exact hread fd size _
  | readTo fd path size => exact hread fd _ _
  | lseek fd pos => exact hmoved ((I.seek_image fd pos).imp id fun heq => ⟨fd, pos, heq⟩)
  | _ => exact hc.elim

/-- **A command** leaves every reserved inode alone that it does not act on. -/
theorem Ok.sameInode_after (h : I.Ok) (F : HostFiles) {c : Command} (hc : c ≠ .init)
    (hj : Taken I.sb.reservedInodesMask j) (hacts : ¬ I.store.ActsOn c j) :
    SameInode j I (I.after F c) := by
  have hwritten : ∀ fd data, (¬ ∃ p, I.store.Descriptor fd j p) →
      SameInode j I (I.written fd data) := by
    intro fd data hnone
    exact h.sameInode_written fd data hj fun p hent => hnone ⟨p, descriptor_iff.mpr hent⟩
  by_cases htable : c.TableOnly
  · rw [h.after_tableOnly F htable]
    exact ⟨rfl, fun _ _ _ _ => rfl⟩
  cases c with
  | init => exact absurd rfl hc
  | mkdir path => exact h.sameInode_created false path.bytes hj hacts
  | touch path => exact h.sameInode_created true path.bytes hj hacts
  | write fd data => exact hwritten fd data hacts
  | writeFrom fd path =>
    simp only [Image.after]
    split
    · exact hwritten fd _ hacts
    · exact SameInode.refl j I
  | _ => exact absurd trivial htable

/-- **A command** leaves the entries of the other descriptors alone. -/
theorem Ok.entry_after (h : I.Ok) (F : HostFiles) {c : Command} {f i p : Nat} (hc : c.Foreign f)
    (hent : I.dt.Entry f i p) : (I.after F c).dt.Entry f i p := by
  cases c with
  | init => exact hc.elim
  | readFs => exact hent
  | ls path => exact hent
  | mkdir path => rwa [Image.after, h.create_dt]
  | touch path => rwa [Image.after, h.create_dt]
  | «open» path =>
    rcases h.openPath_cases path.bytes with ⟨heq, _⟩ | ⟨i, fd, dt, heq, _, _, hdt⟩
    · rwa [Image.after, heq]
    · rw [Image.after, heq]
      exact (hent.reserveDescriptor hdt).2
  | close fd =>
    simp only [Image.after, closeFd]
    split
    · exact entry_freeDescriptor.mpr ⟨Ne.symm hc, hent⟩
    · exact hent
  | write fd data => exact hent.movedAt (h.movedAt_written fd data) (Ne.symm hc)
  | writeFrom fd path =>
    simp only [Image.after]
    split
    · exact hent.movedAt (h.movedAt_written fd _) (Ne.symm hc)
    · exact hent
  | read fd size => exact hent.movedAt (I.movedAt_read fd size _) (Ne.symm hc)
  | readTo fd path size => exact hent.movedAt (I.movedAt_read fd _ _) (Ne.symm hc)
  | lseek fd pos => exact hent.movedAt (I.movedAt_seek fd pos) (Ne.symm hc)

end Image

end MiniExt
