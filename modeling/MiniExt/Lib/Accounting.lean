import MiniExt.Lib.Isolation
import Mathlib.Algebra.BigOperators.Group.Finset.Basic

namespace MiniExt.Lib

open scoped BigOperators

/-!
# Lib — the room of a file system

A file system counts how many nodes and blocks are left.  Calls that find their room keep this
count in balance with the tree: what is left and what the nodes take make up the whole disk, so
that the room depends on nothing but the tree.

* `Node.blocks` — how many blocks a node takes;
* `FileSystem.Accounts` — the nodes that are there, and the balance;
* `FileSystem.Accounts.add`, `FileSystem.Accounts.setFile` — the two changes of the tree;
* `FileSystem.Balanced` — sound and in balance; every allowed call keeps this.
-/

variable {ν β : Type}

/-- How many blocks a node takes: a directory takes one. -/
def Node.blocks (cap : Nat) : Node ν β → Nat
  | .dir _ => 1
  | .file c => chunksFor cap c.length

/-- So does an empty file. -/
theorem Node.blocks_file_nil (cap : Nat) : (Node.file [] : Node ν β).blocks cap = 1 := by
  show max 1 ((0 + (cap - 1)) / cap) = 1
  rw [Nat.zero_add]
  rcases Nat.eq_zero_or_pos cap with rfl | hcap
  · rfl
  · rw [Nat.div_eq_of_lt (Nat.sub_lt hcap Nat.one_pos)]
    rfl

namespace FileSystem

/-- How many blocks the node at a path takes. -/
def blocksAt (cap : Nat) (fs : FileSystem ν β) (p : List ν) : Nat :=
  (fs.node p).elim 0 (Node.blocks cap)

/-- There are nodes at `paths`, and with what is left they make up `nodes` and `blocks`. -/
structure Accounts (cap nodes blocks : Nat) (fs : FileSystem ν β) (paths : Finset (List ν)) :
    Prop where
  mem : ∀ p, p ∈ paths ↔ (fs.node p).isSome
  nodes : fs.freeNodes + paths.card = nodes
  blocks : fs.freeBlocks + ∑ p ∈ paths, fs.blocksAt cap p = blocks

variable {cap nodes blocks : Nat} {fs : FileSystem ν β} {paths : Finset (List ν)}

/-- The blocks at a path are those of its node. -/
theorem blocksAt_of_node {p : List ν} {n : Node ν β} (h : fs.node p = some n) :
    fs.blocksAt cap p = n.blocks cap := by
  rw [blocksAt, h]
  rfl

/-- They depend on the node alone. -/
theorem blocksAt_congr {fs' : FileSystem ν β} {p : List ν} (h : fs'.node p = fs.node p) :
    fs'.blocksAt cap p = fs.blocksAt cap p :=
  congrArg (Option.elim · 0 (Node.blocks cap)) h

variable [DecidableEq ν] {L : Limits ν}

/-- A fresh file system has one node, the root, and one block. -/
theorem accounts_fresh (cap nodes blocks : Nat) :
    (fresh nodes blocks : FileSystem ν β).Accounts cap (nodes + 1) (blocks + 1) {[]} where
  mem := by
    intro p
    rw [Finset.mem_singleton]
    by_cases hp : p = []
    · subst hp
      exact iff_of_true rfl rfl
    · rw [node_fresh_of_ne hp]
      exact iff_of_false hp Bool.false_ne_true
  nodes := rfl
  blocks := by
    rw [Finset.sum_singleton]
    rfl

/-! ### Changes of the tree -/

/-- **A new node** that takes one block, where there is room. -/
theorem Accounts.add (h : fs.Accounts cap nodes blocks paths) {q listed : List ν} {name : ν}
    {n : Node ν β} (hq : fs.node q = some (.dir listed)) (hnone : fs.node (q ++ [name]) = none)
    (hn : n.blocks cap = 1) (hnodes : 0 < fs.freeNodes) (hblocks : 0 < fs.freeBlocks) :
    (fs.add q listed name n).Accounts cap nodes blocks (insert (q ++ [name]) paths) := by
  have hnew : q ++ [name] ∉ paths := by
    rw [h.mem, hnone]
    exact Bool.false_ne_true
  have hnode : (fs.add q listed name n).node (q ++ [name]) = some n := Function.update_self _ _ _
  -- the parent is still a directory, and nothing else has changed
  have hold : ∀ p ∈ paths, (fs.add q listed name n).blocksAt cap p = fs.blocksAt cap p := by
    intro p hp
    by_cases hpq : p = q
    · subst hpq
      rw [blocksAt_of_node node_add_parent, blocksAt_of_node hq]
      rfl
    · refine blocksAt_congr (node_add_of_ne hpq ?_)
      rintro rfl
      exact hnew hp
  refine ⟨?_, ?_, ?_⟩
  · intro p
    rw [Finset.mem_insert, h.mem]
    by_cases hp : p = q ++ [name]
    · subst hp
      rw [hnode]
      exact iff_of_true (Or.inl rfl) rfl
    · rw [or_iff_right hp]
      by_cases hpq : p = q
      · subst hpq
        rw [node_add_parent, hq]
        exact Iff.rfl
      · rw [node_add_of_ne hpq hp]
  · have hfree : (fs.add q listed name n).freeNodes = fs.freeNodes - 1 := rfl
    have hsum := h.nodes
    rw [hfree, Finset.card_insert_of_notMem hnew]
    omega
  · have hfree : (fs.add q listed name n).freeBlocks = fs.freeBlocks - 1 := rfl
    have hrest : ∑ p ∈ paths, (fs.add q listed name n).blocksAt cap p =
        ∑ p ∈ paths, fs.blocksAt cap p := Finset.sum_congr rfl hold
    have hsum := h.blocks
    rw [hfree, Finset.sum_insert hnew, blocksAt_of_node hnode, hn, hrest]
    omega

/-- **A file that grows**, where there is room for its new blocks. -/
theorem Accounts.setFile (h : fs.Accounts cap nodes blocks paths) {p : List ν} {c c' : List β}
    (hp : fs.node p = some (.file c)) (hlength : c.length ≤ c'.length)
    (hroom : chunksFor cap c'.length - chunksFor cap c.length ≤ fs.freeBlocks) :
    { fs with
      node := Function.update fs.node p (some (.file c'))
      freeBlocks := fs.freeBlocks - (chunksFor cap c'.length - chunksFor cap c.length) }.Accounts
        cap nodes blocks paths := by
  generalize hfs' : ({ fs with
      node := Function.update fs.node p (some (.file c'))
      freeBlocks := fs.freeBlocks - (chunksFor cap c'.length - chunksFor cap c.length) } :
    FileSystem ν β) = fs'
  have hself : fs'.node p = some (.file c') := hfs' ▸ Function.update_self _ _ _
  have hother : ∀ q, q ≠ p → fs'.node q = fs.node q := fun q hq =>
    hfs' ▸ Function.update_of_ne hq _ _
  have hmem : p ∈ paths := (h.mem p).mpr (by rw [hp]; rfl)
  refine ⟨?_, ?_, ?_⟩
  · intro q
    rw [h.mem]
    by_cases hq : q = p
    · subst hq
      rw [hself, hp]
      exact Iff.rfl
    · rw [hother q hq]
  · rw [← hfs']
    exact h.nodes
  · have hrest : ∑ q ∈ paths.erase p, fs'.blocksAt cap q =
        ∑ q ∈ paths.erase p, fs.blocksAt cap q :=
      Finset.sum_congr rfl fun q hq => blocksAt_congr (hother q (Finset.ne_of_mem_erase hq))
    have hfree : fs'.freeBlocks =
        fs.freeBlocks - (chunksFor cap c'.length - chunksFor cap c.length) := by
      rw [← hfs']
    have hsum := h.blocks
    have hgrows := chunksFor_mono cap hlength
    rw [← Finset.add_sum_erase paths _ hmem, blocksAt_of_node hp] at hsum
    rw [← Finset.add_sum_erase paths _ hmem, blocksAt_of_node hself, hrest, hfree]
    simp only [Node.blocks] at hsum ⊢
    omega

/-! ### Calls -/

/-- A creation that adds something finds its room. -/
theorem HasRoom.of_create {n : Node ν β} {parent : List ν} {name : ν}
    (hroom : fs.HasRoom L parent name) (hne : fs.create L n parent name ≠ fs) :
    0 < fs.freeNodes ∧ 0 < fs.freeBlocks := by
  unfold HasRoom at hroom
  unfold create at hne
  rcases hdir : fs.directory L parent with _ | ⟨q, listed⟩
  · simp only [hdir, ne_eq, not_true_eq_false] at hne
  · simp only [hdir] at hroom hne
    rcases hroom with hthere | ⟨-, hfree⟩
    · exact absurd (if_pos hthere) hne
    · exact hfree

/-- Laying data over a content does not make it shorter. -/
theorem le_length_overlay (c : List β) (pos : Nat) (data : List β) :
    c.length ≤ (overlay c pos data).length := by
  unfold overlay
  simp only [List.length_append, List.length_take, List.length_drop]
  omega

/-- A sound file system whose room is what its tree leaves. -/
structure Balanced (L : Limits ν) (nodes blocks : Nat) (fs : FileSystem ν β) : Prop where
  sound : fs.Sound L
  accounts : ∃ paths, fs.Accounts L.block nodes blocks paths

/-- A fresh file system is balanced. -/
theorem balanced_fresh (nodes blocks : Nat) :
    (fresh nodes blocks : FileSystem ν β).Balanced L (nodes + 1) (blocks + 1) :=
  ⟨sound_fresh nodes blocks, {[]}, accounts_fresh L.block nodes blocks⟩

/-- A creation accounts for the node it adds. -/
theorem Balanced.create (h : fs.Balanced L nodes blocks) {n : Node ν β} (hn : n.blocks L.block = 1)
    {parent : List ν} {name : ν} (hroom : fs.HasRoom L parent name) :
    ∃ paths, (fs.create L n parent name).Accounts L.block nodes blocks paths := by
  obtain ⟨paths, hpaths⟩ := h.accounts
  by_cases hsame : fs.create L n parent name = fs
  · exact ⟨paths, by rwa [hsame]⟩
  obtain ⟨hnodes, hblocks⟩ := hroom.of_create hsame
  rcases create_cases n parent name with heq | ⟨q, listed, hq, hname, heq⟩
  · exact absurd heq hsame
  · refine ⟨insert (q ++ [name]) paths, ?_⟩
    rw [heq]
    refine hpaths.add hq ?_ hn hnodes hblocks
    -- a name that was not listed had no node
    rw [Option.eq_none_iff_forall_ne_some]
    intro m hm
    obtain ⟨names, hnames, hmem⟩ := h.sound.listed hm
    rw [hq, Option.some.injEq, Node.dir.injEq] at hnames
    exact hname (hnames ▸ hmem)

/-- A write accounts for the blocks it adds. -/
theorem Balanced.write (h : fs.Balanced L nodes blocks) {fd : Nat} {data : List β}
    (hfits : fs.Fits L fd data) :
    ∃ paths, (fs.write L fd data).2.Accounts L.block nodes blocks paths := by
  obtain ⟨paths, hpaths⟩ := h.accounts
  refine ⟨paths, ?_⟩
  unfold Fits at hfits
  unfold FileSystem.write
  rcases hfile : fs.file fd with _ | ⟨p, c, pos⟩
  · exact hpaths
  rw [hfile] at hfits
  dsimp only at hfits ⊢
  have hroom : blocksAdded L c pos data ≤ fs.freeBlocks := by
    rcases hfits with rfl | ⟨-, -, hroom⟩
    · simp [blocksAdded, overlay]
    · exact hroom
  have hpointed : (fs.point fd p (pos + data.length)).Accounts L.block nodes blocks paths :=
    ⟨hpaths.mem, hpaths.nodes, hpaths.blocks⟩
  exact hpointed.setFile (file_eq_some.mp hfile).2 (le_length_overlay c pos data) hroom

/-- **Every allowed call** keeps a file system in balance. -/
theorem Balanced.answer (h : fs.Balanced L nodes blocks) {call : FileCall ν β}
    (hallowed : fs.Allowed L call) : ((service L).answer fs call).2.Balanced L nodes blocks := by
  refine ⟨h.sound.answer call, ?_⟩
  obtain ⟨paths, hpaths⟩ := h.accounts
  -- descriptors take no room
  have hpointed : ∀ fd p pos, (fs.point fd p pos).Accounts L.block nodes blocks paths :=
    fun _ _ _ => ⟨hpaths.mem, hpaths.nodes, hpaths.blocks⟩
  cases call with
  | ls names => exact ⟨paths, hpaths⟩
  | mkdir parent name => exact h.create rfl hallowed
  | touch parent name => exact h.create (Node.blocks_file_nil L.block) hallowed
  | «open» parent name =>
    refine ⟨paths, ?_⟩
    show (fs.open L parent name).2.Accounts L.block nodes blocks paths
    unfold FileSystem.open
    rcases fs.resolve L (parent ++ [name]) with _ | p
    · exact hpaths
    dsimp only
    split
    · rcases (List.range L.descriptors).find? fun fd => (fs.opened fd).isNone with _ | fd
      · exact hpaths
      · exact hpointed fd p 0
    · exact hpaths
  | close fd => exact ⟨paths, hpaths.mem, hpaths.nodes, hpaths.blocks⟩
  | read fd size =>
    refine ⟨paths, ?_⟩
    show (fs.read fd size).2.Accounts L.block nodes blocks paths
    unfold FileSystem.read
    rcases fs.file fd with _ | ⟨p, c, pos⟩
    · exact hpaths
    · exact hpointed fd p _
  | write fd data => exact h.write hallowed.2
  | lseek fd pos =>
    refine ⟨paths, ?_⟩
    show (fs.lseek L fd pos).Accounts L.block nodes blocks paths
    unfold FileSystem.lseek
    rcases fs.file fd with _ | ⟨p, c, pos'⟩
    · exact hpaths
    · dsimp only
      split
      · exact hpaths
      · exact hpointed fd p pos

end FileSystem

end MiniExt.Lib
