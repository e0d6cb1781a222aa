import MiniExt.Disk.Machine
import MiniExt.Runs.Halts

namespace MiniExt

open Lib

/-!
# Termination

`read_while` calls `read` until it has all it asked for, and at the end of the file `read`
returns zero for ever.  So whether a command ends is decided by the lengths it reads: it does
exactly if every structure it asks for lies in the file, under every schedule of transfers.

* `ComesBack` — a codec returns, with a failure if the file is too short;
* `Terminates` — a command returns to the client or ends its process;
* `terminates_iff` — where they do.
-/

/-- The process ends: it exits, or its host kills it. -/
def Stop.Orderly : Stop → Prop
  | .exit | .abort => True
  | .memoryError | .outside => False

/-- Some number of turns of the loops is enough for the codec to return, and where the file is
    too short it returns a failure. -/
def ComesBack {α : Type} (schedule : Schedule) (p : DeviceProg (Option α)) (inside : Prop)
    (s : Transfers) : Prop :=
  ∃ fuel a s', p.run? (scheduleHandler schedule fuel) s = some (.done a, s') ∧
    (¬ inside → a = none)

/-- Some number of turns of the loops is enough for the command to return or to end its
    process. -/
def Terminates (schedule : Schedule) (p : ExtProg Unit) (m : ByteMachine Transfers) : Prop :=
  ∃ fuel, p.Ends (byteHandler (scheduleHandler schedule fuel) Transfers.access) Stop.Orderly m

/-- Every step of the command is safe, and it does not leave the memory of its structures. -/
def EveryStepSafe (p : ExtProg Unit) (m : ByteMachine ImageFile) : Prop :=
  p.EachStep (byteHandler fileHandler ImageFile.access) StepSafe (· ≠ .memoryError) m

/-! ### Codecs -/

/-- A codec comes back under partial transfers where it does under complete ones. -/
theorem comesBack_iff {α : Type} {p : DeviceProg (Option α)} {inside ok : Prop} {s : Transfers}
    (schedule : Schedule) (hok : p.Returns fileHandler s.file ↔ ok) (hinside : ok → inside) :
    ComesBack schedule p inside s ↔ ok := by
  have hsettles := run?_settles (scheduleHandler_settles schedule) p s
  rw [← hok]
  constructor
  · rintro ⟨fuel, a, s', hrun, -⟩
    obtain ⟨o, f, hfile, a', rfl⟩ := (hsettles.exists_iff (Q := fun o => ∃ a, o = .done a)).mp
      ⟨fuel, _, s', hrun, a, rfl⟩
    exact ⟨a', f, hfile⟩
  · rintro ⟨a, f, hfile⟩
    obtain ⟨fuel, o, s', hrun, a', rfl⟩ :=
      (hsettles.exists_iff (Q := fun o => ∃ a, o = .done a)).mpr ⟨_, f, hfile, a, rfl⟩
    refine ⟨fuel, a', s', hrun, ?_⟩
    intro hshort
    exact absurd (hinside (hok.mp ⟨a, f, hfile⟩)) hshort

/-! ### Commands -/

/-- **A command terminates** exactly if each of its steps is safe. -/
theorem Command.comesBack_of_steps_iff (schedule : Schedule) (c : Command)
    (m : ByteMachine Transfers) :
    Terminates schedule c.prog m ↔ EveryStepSafe c.prog m.erase := by
  have hsettles := run?_settles (byteHandler_settles schedule) c.prog m
  have hends : c.prog.Ends (byteHandler fileHandler ImageFile.access) Stop.Orderly m.erase ↔ _ :=
    Prog.ends_iff byteHandler_answers_iff (fun c m e m' hrun hend => by
      rw [byteHandler_halts c hrun] at hend
      exact hend) c.prog m.erase
  have hreasons : ∀ e : Stop, e ≠ .outside → (e.Orderly ↔ e ≠ .memoryError) := by
    intro e he
    cases e with
    | exit => exact iff_of_true trivial Stop.noConfusion
    | abort => exact iff_of_true trivial Stop.noConfusion
    | memoryError => exact iff_of_false id fun h => h rfl
    | outside => exact absurd rfl he
  calc Terminates schedule c.prog m
      ↔ c.prog.Ends (byteHandler fileHandler ImageFile.access) Stop.Orderly m.erase :=
        hsettles.exists_iff
    _ ↔ c.prog.EachStep (byteHandler fileHandler ImageFile.access) StepSafe Stop.Orderly m.erase :=
        hends
    _ ↔ EveryStepSafe c.prog m.erase := Prog.eachStep_congr hreasons c.complete.haltsIn m.erase

/-- **`read_fs` terminates** exactly if the file has a whole superblock. -/
theorem readFs_terminates_iff (schedule : Schedule) (s : Transfers) (files : HostFiles) :
    Terminates schedule Command.readFs.prog ⟨s, files, []⟩ ↔
      SuperblockInside ⟨s.file.bytes, 0⟩ := by
  rw [Command.comesBack_of_steps_iff]
  constructor
  · intro hsafe
    -- the image is opened, acquired and used; then its superblock is read
    exact (((hsafe.2 true _ rfl).2 () _ rfl).2 () _ rfl).1
  · intro hinside
    refine ⟨trivial, ?_⟩
    rintro opened m₁ ⟨⟩
    refine ⟨trivial, ?_⟩
    rintro ⟨⟩ m₂ ⟨⟩
    refine ⟨List.mem_singleton_self _, ?_⟩
    rintro ⟨⟩ m₃ ⟨⟩
    refine ⟨hinside, ?_⟩
    intro sb m₄ hread
    obtain ⟨sb', f', hrun⟩ := run?_readSuperBlock hinside
    have hread' : byteHandler fileHandler ImageFile.access .readSuperBlock
        (⟨⟨s.file.bytes, 0⟩, files, [.image]⟩ : ByteMachine ImageFile) =
        some (.done (some sb'), ⟨f', files, [.image]⟩) := by
      show (Device.readSuperBlock.run? fileHandler ⟨s.file.bytes, 0⟩).map _ = _
      rw [hrun]
      rfl
    cases hread.symm.trans hread'
    -- the superblock is live until it is released
    refine ⟨trivial, ?_⟩
    rintro ⟨⟩ m₅ ⟨⟩
    refine ⟨List.mem_cons_self, ?_⟩
    rintro ⟨⟩ m₆ ⟨⟩
    show Prog.EachStep _ _ _ ((if sb'.fsInfo.magic ≠ magicNumber then _ else _ : ExtProg Superblock)
      >>= fun _ => leave) _
    have hleave : leave.EachStep (byteHandler fileHandler ImageFile.access) StepSafe
        (· ≠ .memoryError) (⟨f', files, [.superblock, .image]⟩ : ByteMachine ImageFile) := by
      refine ⟨List.mem_cons_self, ?_⟩
      rintro ⟨⟩ m₇ ⟨⟩
      refine ⟨List.mem_singleton_self _, ?_⟩
      rintro ⟨⟩ m₈ ⟨⟩
      exact trivial
    split
    · refine ⟨List.mem_cons_self, ?_⟩
      rintro ⟨⟩ m₇ ⟨⟩
      refine ⟨List.mem_singleton_self _, ?_⟩
      rintro ⟨⟩ m₈ ⟨⟩
      exact Stop.noConfusion
    · exact hleave

/-- **Reading and termination.**  Under every schedule, `read_while` and each codec come back
    exactly if what they ask for lies in the file, and a command terminates exactly if each of
    its steps is safe. -/
theorem terminates_iff (schedule : Schedule) (s : Transfers) (files : HostFiles)
    (live : List Handle) :
    (∀ count, ComesBack schedule (Device.readWhile count) (s.file.Inside s.file.pos count) s ↔
      s.file.Inside s.file.pos count) ∧
    (ComesBack schedule Device.readSuperBlock (SuperblockInside s.file) s ↔
      SuperblockInside s.file) ∧
    (∀ info, ComesBack schedule (Device.readDescriptorsTable info) (TableInside info s.file) s ↔
      TableInside info s.file) ∧
    (∀ info inodeId, ComesBack schedule (Device.readInode info inodeId)
      (InodeInside info inodeId s.file) s ↔ InodeInside info inodeId s.file) ∧
    (∀ info blockId, ComesBack schedule (Device.readBlock info blockId >>= ReadBlockResult.value)
      (BlockInside info blockId s.file) s ↔ BlockReadable info blockId s.file) ∧
    ∀ c : Command, Terminates schedule c.prog ⟨s, files, live⟩ ↔
      EveryStepSafe c.prog ⟨s.file, files, live⟩ := by
  refine ⟨?_, ?_, ?_, ?_, ?_, ?_⟩
  · intro count
    refine comesBack_iff schedule (((needs_readWhile count).returns_iff s.file).trans ?_) id
    unfold ImageFile.left ImageFile.Inside
    rw [List.length_drop]
  · exact comesBack_iff schedule (returns_readSuperBlock s.file) id
  · intro info
    exact comesBack_iff schedule (returns_readDescriptorsTable info s.file) id
  · intro info inodeId
    exact comesBack_iff schedule (returns_readInode info inodeId s.file) id
  · intro info blockId
    exact comesBack_iff schedule (returns_readBlock_value info blockId s.file) fun h => h.1.1
  · intro c
    exact c.comesBack_of_steps_iff schedule ⟨s, files, live⟩

/-- An empty image: neither `read_super_block` nor `read_fs` comes back. -/
theorem not_terminates_empty :
    ¬ ComesBack (fun _ => 0) Device.readSuperBlock (SuperblockInside ⟨[], 0⟩) ⟨⟨[], 0⟩, 0⟩ ∧
      ¬ Terminates (fun _ => 0) Command.readFs.prog ⟨⟨⟨[], 0⟩, 0⟩, .onlyImage, []⟩ := by
  have hshort : ¬ SuperblockInside ⟨[], 0⟩ := fun h => absurd h.1 (by decide)
  constructor
  · rw [@comesBack_iff _ _ _ (SuperblockInside ⟨[], 0⟩) _ _ (returns_readSuperBlock ⟨[], 0⟩) id]
    exact hshort
  · rw [readFs_terminates_iff]
    exact hshort

end MiniExt
