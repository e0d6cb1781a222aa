import MiniExt.Ideal.Isolation
import MiniExt.Lib.Accounting

namespace MiniExt

open Lib
open scoped BigOperators

/-!
# Ideal — the room of an image

Sessions keep the room of their file system in balance with its tree.  So in what the client leaves
the masks count what the paths lead to: as many inodes are reserved as there are files and
directories, and as many blocks as their contents need.  Whatever has been opened, written over or
refused before, nothing is lost.

* `Store.Accounted` — what the paths lead to makes up the whole image;
* `Image.Models.accounted` — the room of an image is the room of what its users see;
* `space_accounted` — and every run leaves it so.
-/

/-- The inodes that paths lead to, and the blocks that their contents need, make up all 128 inodes
    and 128 blocks with those that are free. -/
def Store.Accounted (st : Store) : Prop :=
  ∃ inodes : Finset Nat, (∀ i, i ∈ inodes ↔ ∃ p, st.Locates p i) ∧
    st.freeInodes + inodes.card = 128 ∧
    st.freeBlocks + ∑ i ∈ inodes, (st.nodeOf i).blocks defaultLimits.block = 128

/-- **The room of an image** is the room of what its users see. -/
theorem Image.Models.accounted {I : Image} {fs : IdealFs} (hm : I.Models fs) (ht : I.Tidy)
    (hb : fs.Balanced defaultLimits 128 128) : I.store.Accounted := by
  obtain ⟨paths, hpaths⟩ := hb.accounts
  -- every path leads to one inode, and no two lead to the same
  have hexists : ∀ p, ∃ i, p ∈ paths → I.store.Locates p i := by
    intro p
    by_cases hp : p ∈ paths
    · obtain ⟨n, hn⟩ := Option.isSome_iff_exists.mp ((hpaths.mem p).mp hp)
      obtain ⟨i, hi, -⟩ := (hm.node p n).mp hn
      exact ⟨i, fun _ => hi⟩
    · exact ⟨0, fun hmem => absurd hmem hp⟩
  choose inodeAt hat using hexists
  have hmem : ∀ {p i}, I.store.Locates p i → p ∈ paths ∧ inodeAt p = i := by
    intro p i hi
    have hp : p ∈ paths := by
      rw [hpaths.mem, (hm.node p _).mpr ⟨i, hi, rfl⟩]
      rfl
    exact ⟨hp, ht.distinct.locates_unique (hat p hp) hi⟩
  have hinj : Set.InjOn inodeAt paths := by
    intro p hp q hq heq
    have hq' := hat q hq
    rw [← heq] at hq'
    exact ht.ok.locates_inj (hat p hp) hq'
  refine ⟨paths.image inodeAt, ?_, ?_, ?_⟩
  · intro i
    rw [Finset.mem_image]
    constructor
    · rintro ⟨p, hp, rfl⟩
      exact ⟨p, hat p hp⟩
    · rintro ⟨p, hi⟩
      exact ⟨p, hmem hi⟩
  · rw [Finset.card_image_of_injOn hinj, ← hm.freeNodes]
    exact hpaths.nodes
  · have hblocks : ∀ p ∈ paths, (I.store.nodeOf (inodeAt p)).blocks defaultLimits.block =
        fs.blocksAt defaultLimits.block p := fun p hp =>
      (FileSystem.blocksAt_of_node ((hm.node p _).mpr ⟨_, hat p hp, rfl⟩)).symm
    rw [Finset.sum_image hinj, Finset.sum_congr rfl hblocks, ← hm.freeBlocks]
    exact hpaths.blocks

/-- **Space is accounted for.**  After every session of the client from a new image, the paths of
    the image lead to as many inodes as are reserved, and what is found there needs as many blocks
    as are reserved. -/
theorem space_accounted (w : World) {cs : List (Command × List UInt8)}
    (hallowed : Session.service.Allows Session.Allowed cs (.fresh w.files)) :
    (client.run cs (w.step .init)).2.store.Accounted := by
  have hbalanced := Session.run_keeps (P := FileSystem.Balanced defaultLimits 128 128)
    (FileSystem.balanced_fresh 127 127) (fun h hcall => h.answer hcall) hallowed
  obtain ⟨I, ht, hm, hworld⟩ := (client_implements.run (shows_init w) hallowed).2
  rw [hworld]
  exact hm.accounted ht hbalanced

/-- `mkdir /a`, `touch /a/f`, `open /a/f`, `write 0 hi`, `lseek 0 1`, `close 0`, `mkdir /a`. -/
def oneFile : List (Command × List UInt8) :=
  [.mkdir (bufferLine [slash, 97]), .touch (bufferLine [slash, 97, slash, 102]),
    .open (bufferLine [slash, 97, slash, 102]), .write 0 [104, 105], .lseek 0 1, .close 0,
    .mkdir (bufferLine [slash, 97])].map fun c => (c, List.replicate 256 0)

/-- A session with one file and data in it. -/
theorem space_accounted_oneFile :
    (client.run oneFile ((⟨.blank, .onlyImage⟩ : World).step .init)).2.store.Accounted :=
  space_accounted ⟨.blank, .onlyImage⟩ (by decide)

end MiniExt
