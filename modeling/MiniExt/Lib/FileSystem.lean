import MiniExt.Lib.Chunks
import MiniExt.Lib.Services
import Mathlib.Logic.Function.Basic

namespace MiniExt.Lib

/-!
# Lib — a file system without its disk

What the users of a small file system see: a directory lists names, a file holds a list, both are
found under a list of names, and descriptors remember a file and a position in it.  There are no
inodes and no blocks here, only how many of them are left.

* `FileSystem` — the nodes, the open descriptors and what is left;
* `FileSystem.resolve` — where a list of names leads, with one name for a directory itself and one
  for the directory it is in;
* `FileSystem.create`, `FileSystem.open`, `FileSystem.read`, … — the calls;
* `FileSystem.service` — the calls as a service;
* `FileSystem.Allowed` — the calls a file system on a small disk can answer like this.
-/

variable {ν β : Type}

/-! ### States -/

/-- A directory lists names; a file holds a list. -/
inductive Node (ν β : Type) where
  | dir (names : List ν)
  | file (content : List β)
  deriving DecidableEq, Repr

/-- What a file system does not change: the two names every directory has, how many others it may
    list, the largest file, the size of a block and the number of descriptors. -/
structure Limits (ν : Type) where
  dot : ν
  twoDots : ν
  names : Nat
  size : Nat
  block : Nat
  descriptors : Nat

/-- The nodes by the names that lead to them, the files and positions of the open descriptors, and
    how many nodes and blocks are left. -/
structure FileSystem (ν β : Type) where
  node : List ν → Option (Node ν β)
  opened : Nat → Option (List ν × Nat)
  freeNodes : Nat
  freeBlocks : Nat

/-- The calls.  A path is a list of names; where the last one is the name of the node itself, it
    stands apart. -/
inductive FileCall (ν β : Type) where
  | ls (names : List ν)
  | mkdir (parent : List ν) (name : ν)
  | touch (parent : List ν) (name : ν)
  | open (parent : List ν) (name : ν)
  | close (fd : Nat)
  | read (fd size : Nat)
  | write (fd : Nat) (data : List β)
  | lseek (fd pos : Nat)
  deriving DecidableEq, Repr

/-- The answers: what a directory lists, and which of it are files; the descriptor that was opened;
    what was read; how much was written. -/
inductive FileReply (ν β : Type) where
  | done
  | listing (entries : Option (List (ν × Bool)))
  | descriptor (fd : Option Nat)
  | data (got : Option (List β))
  | count (n : Option Nat)
  deriving DecidableEq, Repr

namespace FileSystem

/-- An empty root directory. -/
def fresh [DecidableEq ν] (nodes blocks : Nat) : FileSystem ν β where
  node := Function.update (fun _ => none) [] (some (.dir []))
  opened _ := none
  freeNodes := nodes
  freeBlocks := blocks

section Calls

variable [DecidableEq ν] (L : Limits ν) (fs : FileSystem ν β)

/-! ### Names -/

/-- Where a name leads from a directory. -/
def enter (p : List ν) (c : ν) : Option (List ν) :=
  match fs.node p with
  | some (.dir names) =>
    if c = L.dot then some p
    else if c = L.twoDots then some p.dropLast
    else if c ∈ names then some (p ++ [c])
    else none
  | _ => none

/-- Where a list of names leads from the root. -/
def resolve (names : List ν) : Option (List ν) := names.foldlM (fs.enter L) []

/-- The directory a list of names leads to, and the names it lists. -/
def directory (names : List ν) : Option (List ν × List ν) :=
  match fs.resolve L names with
  | some p =>
    match fs.node p with
    | some (.dir listed) => some (p, listed)
    | _ => none
  | none => none

/-- The file of a descriptor, its content and the position in it. -/
def file (fd : Nat) : Option (List ν × List β × Nat) :=
  match fs.opened fd with
  | some (p, pos) =>
    match fs.node p with
    | some (.file c) => some (p, c, pos)
    | _ => none
  | none => none

/-! ### Calls -/

/-- There is a file at the path. -/
def isFile (p : List ν) : Bool :=
  match fs.node p with
  | some (.file _) => true
  | _ => false

/-- The two names every directory has, and the others. -/
def list (names : List ν) : Option (List (ν × Bool)) :=
  (fs.directory L names).map fun (p, listed) =>
    (L.dot, false) :: (L.twoDots, false) :: listed.map fun c => (c, fs.isFile (p ++ [c]))

/-- A new node in directory `p`. -/
def add (p listed : List ν) (c : ν) (n : Node ν β) : FileSystem ν β :=
  { fs with
    node := Function.update (Function.update fs.node p (some (.dir (listed ++ [c])))) (p ++ [c])
      (some n)
    freeNodes := fs.freeNodes - 1
    freeBlocks := fs.freeBlocks - 1 }

/-- A node is created where its parent is a directory and its name is new there. -/
def create (n : Node ν β) (parent : List ν) (name : ν) : FileSystem ν β :=
  match fs.directory L parent with
  | some (p, listed) =>
    if (fs.enter L p name).isSome then fs else fs.add p listed name n
  | none => fs

/-- The file and the position of a descriptor are set. -/
def point (fd : Nat) (p : List ν) (pos : Nat) : FileSystem ν β :=
  { fs with opened := Function.update fs.opened fd (some (p, pos)) }

/-- No descriptor is for a node. -/
def Unopened (p : List ν) : Prop := ∀ fd < L.descriptors, (fs.opened fd).map Prod.fst ≠ some p

instance (p : List ν) : Decidable (fs.Unopened L p) :=
  inferInstanceAs (Decidable (∀ fd < L.descriptors, _))

/-- The first descriptor that is not open, for a file that is not open. -/
def «open» (parent : List ν) (name : ν) : Option Nat × FileSystem ν β :=
  match fs.resolve L (parent ++ [name]) with
  | some p =>
    if fs.Unopened L p then
      match (List.range L.descriptors).find? fun fd => (fs.opened fd).isNone with
      | some fd => (some fd, fs.point fd p 0)
      | none => (none, fs)
    else (none, fs)
  | none => (none, fs)

/-- Close a descriptor. -/
def close (fd : Nat) : FileSystem ν β :=
  { fs with opened := Function.update fs.opened fd none }

/-- What is there from the position on, and the position behind it. -/
def read (fd size : Nat) : Option (List β) × FileSystem ν β :=
  match fs.file fd with
  | some (p, c, pos) =>
    let got := (c.drop pos).take size
    (some got, fs.point fd p (pos + got.length))
  | none => (none, fs)

/-- How many blocks a write adds to a file. -/
def blocksAdded (c : List β) (pos : Nat) (data : List β) : Nat :=
  chunksFor L.block (overlay c pos data).length - chunksFor L.block c.length

/-- The content with the data laid over it, and the position behind the data. -/
def write (fd : Nat) (data : List β) : Option Nat × FileSystem ν β :=
  match fs.file fd with
  | some (p, c, pos) =>
    (some data.length,
      { fs.point fd p (pos + data.length) with
        node := Function.update fs.node p (some (.file (overlay c pos data)))
        freeBlocks := fs.freeBlocks - blocksAdded L c pos data })
  | none => (none, fs)

/-- A position that no file reaches is refused. -/
def lseek (fd pos : Nat) : FileSystem ν β :=
  match fs.file fd with
  | some (p, _, _) => if L.size ≤ pos then fs else fs.point fd p pos
  | none => fs

/-- The calls and their answers. -/
def service : Service (FileSystem ν β) (FileCall ν β) (FileReply ν β) where
  answer fs
    | .ls names => (.listing (fs.list L names), fs)
    | .mkdir parent name => (.done, fs.create L (.dir []) parent name)
    | .touch parent name => (.done, fs.create L (.file []) parent name)
    | .open parent name =>
      let r := fs.open L parent name
      (.descriptor r.1, r.2)
    | .close fd => (.done, fs.close fd)
    | .read fd size =>
      let r := fs.read fd size
      (.data r.1, r.2)
    | .write fd data =>
      let r := fs.write L fd data
      (.count r.1, r.2)
    | .lseek fd pos => (.done, fs.lseek L fd pos)

/-! ### Calls that can be answered -/

/-- A creation that adds something finds room in its directory, and a node and a block. -/
def HasRoom (parent : List ν) (name : ν) : Prop :=
  match fs.directory L parent with
  | some (p, listed) => (fs.enter L p name).isSome ∨
      listed.length < L.names ∧ 0 < fs.freeNodes ∧ 0 < fs.freeBlocks
  | none => True

/-- The path of an opening does not name a directory. -/
def OpensFile (parent : List ν) (name : ν) : Prop :=
  match fs.resolve L (parent ++ [name]) with
  | some p =>
    match fs.node p with
    | some (.dir _) => False
    | _ => True
  | none => True

/-- A read does not go on behind a file of the largest size. -/
def EndsInside (fd size : Nat) : Prop :=
  match fs.file fd with
  | some (_, c, pos) => c.length < L.size ∨ pos + size ≤ L.size
  | none => True

/-- A write does not cut the file off, keeps it within the largest size and finds its blocks. -/
def Fits (fd : Nat) (data : List β) : Prop :=
  match fs.file fd with
  | some (_, c, pos) => data = [] ∨ CutsNothing L.block c pos data ∧ pos + data.length ≤ L.size ∧
      blocksAdded L c pos data ≤ fs.freeBlocks
  | none => True

/-- A position is inside the file, or refused. -/
def SeeksInside (fd pos : Nat) : Prop :=
  match fs.file fd with
  | some (_, c, _) => pos ≤ c.length ∨ L.size ≤ pos
  | none => True

/-- The calls that a small disk can answer like this. -/
def Allowed : FileCall ν β → Prop
  | .ls _ => True
  | .mkdir parent name => fs.HasRoom L parent name
  | .touch parent name => fs.HasRoom L parent name
  | .open parent name => fs.OpensFile L parent name
  | .close fd => fd < L.descriptors
  | .read fd size => fd < L.descriptors ∧ fs.EndsInside L fd size
  | .write fd data => fd < L.descriptors ∧ fs.Fits L fd data
  | .lseek fd pos => fd < L.descriptors ∧ fs.SeeksInside L fd pos

instance (parent : List ν) (name : ν) : Decidable (fs.HasRoom L parent name) := by
  unfold HasRoom
  split <;> infer_instance

instance (parent : List ν) (name : ν) : Decidable (fs.OpensFile L parent name) := by
  unfold OpensFile
  split
  · split <;> infer_instance
  · infer_instance

instance (fd size : Nat) : Decidable (fs.EndsInside L fd size) := by
  unfold EndsInside
  split <;> infer_instance

instance [DecidableEq β] (fd : Nat) (data : List β) : Decidable (fs.Fits L fd data) := by
  unfold Fits
  split <;> infer_instance

instance (fd pos : Nat) : Decidable (fs.SeeksInside L fd pos) := by
  unfold SeeksInside
  split <;> infer_instance

instance [DecidableEq β] (c : FileCall ν β) : Decidable (fs.Allowed L c) := by
  cases c <;> unfold Allowed <;> infer_instance

/-! ### What the calls look at -/

variable {L fs} {p names listed : List ν} {c : ν}

/-- One step from a directory: it stays, goes up, or goes to what is listed. -/
theorem enter_of_dir (h : fs.node p = some (.dir names)) : fs.enter L p c =
    if c = L.dot then some p
    else if c = L.twoDots then some p.dropLast
    else if c ∈ names then some (p ++ [c])
    else none := by
  simp only [enter, h]

/-- There is no step from a file. -/
theorem enter_of_file {content : List β} (h : fs.node p = some (.file content)) :
    fs.enter L p c = none := by
  simp only [enter, h]

/-- Names are resolved one by one, the last one last. -/
theorem resolve_concat :
    fs.resolve L (names ++ [c]) = (fs.resolve L names).bind fun p => fs.enter L p c := by
  simp [resolve, List.foldlM_append]

/-- A directory is found where names lead to one. -/
theorem directory_eq_some : fs.directory L names = some (p, listed) ↔
    fs.resolve L names = some p ∧ fs.node p = some (.dir listed) := by
  unfold directory
  constructor
  · intro h
    split at h
    · split at h
      · cases h
        exact ⟨by assumption, by assumption⟩
      · cases h
    · cases h
  · rintro ⟨hres, hnode⟩
    simp only [hres, hnode]

/-- In a directory the last name leads on; elsewhere it leads nowhere. -/
theorem resolve_of_directory (h : fs.directory L names = some (p, listed)) :
    fs.resolve L (names ++ [c]) = fs.enter L p c := by
  rw [resolve_concat, (directory_eq_some.mp h).1, Option.bind_some]

/-- Nothing is resolved through what is no directory. -/
theorem resolve_of_no_directory (h : fs.directory L names = none) :
    fs.resolve L (names ++ [c]) = none := by
  rw [resolve_concat]
  rcases hres : fs.resolve L names with _ | p
  · rfl
  rw [Option.bind_some]
  rcases hnode : fs.node p with _ | ⟨listed⟩ | content
  · simp only [enter, hnode]
  · rw [directory_eq_some.mpr ⟨hres, hnode⟩] at h
    cases h
  · exact enter_of_file hnode

omit [DecidableEq ν] in

/-- An open file is what a descriptor and the node it refers to make. -/
theorem file_eq_some {fd pos : Nat} {content : List β} : fs.file fd = some (p, content, pos) ↔
    fs.opened fd = some (p, pos) ∧ fs.node p = some (.file content) := by
  unfold file
  constructor
  · intro h
    split at h
    · split at h
      · cases h
        exact ⟨by assumption, by assumption⟩
      · cases h
    · cases h
  · rintro ⟨hopened, hnode⟩
    simp only [hopened, hnode]

end Calls

/-- Steps that agree on related places agree on lists of names. -/
theorem rel_foldlM {ι π : Type} {R : π → ι → Prop} {g : π → ν → Option π} {f : ι → ν → Option ι}
    {names : List ν} (hstep : ∀ c ∈ names, ∀ p d, R p d → Option.Rel R (g p c) (f d c)) {p : π}
    {d : ι} (hR : R p d) : Option.Rel R (names.foldlM g p) (names.foldlM f d) := by
  induction names generalizing p d with
  | nil => exact .some hR
  | cons c names ih =>
    obtain ⟨hc, hrest⟩ := List.forall_mem_cons.mp hstep
    rw [List.foldlM_cons, List.foldlM_cons]
    have hnext := hc p d hR
    generalize g p c = x at hnext
    generalize f d c = y at hnext
    cases hnext with
    | none => exact .none
    | some h => exact ih hrest h

end FileSystem

end MiniExt.Lib
