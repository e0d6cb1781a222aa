import MiniExt.Runs.Creation
import MiniExt.Runs.Quiet
import MiniExt.Runs.Read

namespace MiniExt

open Lib

/-!
# Runs of commands

From a world whose image keeps the invariant, every command leaves a world whose image
keeps it, and `Image.after` says which.  So an image that runs of commands reach keeps the
invariant, and what is proved of `Image.after` is proved of the commands.

* `exec_write`, `exec_read`, … — the result of a command and the world it leaves;
* `step_after`, `after_ok` — one command;
* `Reachable.image` — every run.
-/

namespace Image

/-- What `write_from` writes: the content of a host file, when it could be read. -/
def hostData (F : HostFiles) (path : List UInt8) : Option (List UInt8) :=
  match F path with
  | none => none
  | some buffer =>
    if buffer.length % 2 ^ 32 = 2 ^ 32 - 1 then none
    else some (buffer.take (buffer.length % 2 ^ 32))

/-- The size `read_to` asks for. -/
def clampSize : Option Nat → Nat
  | none => 968
  | some size => if 968 < size then 968 else size

/-- The image a command leaves. -/
def after (I : Image) (F : HostFiles) : Command → Image
  | .init => formatted
  | .readFs | .ls _ => I
  | .mkdir path => (I.create false path.bytes).image
  | .touch path => (I.create true path.bytes).image
  | .open path => (I.openPath path.bytes).2
  | .close fd => (I.closeFd fd).2
  | .write fd data => I.written fd data
  | .writeFrom fd path =>
    match hostData F path.bytes with
    | some data => I.written fd data
    | none => I
  | .read fd size => (I.read fd size commandBufferLength).2
  | .readTo fd _ size => (I.read fd (clampSize size) (clampSize size)).2
  | .lseek fd pos => (I.seek fd pos).2

/-- The host files once `read_file` has ended and what it read was written to a path; nothing is
    said of the bytes of the image. -/
def filesRead (F : HostFiles) (path : List UInt8) : Outcome Stop (Option (List UInt8)) → HostFiles
  | .done (some buffer) => if F.isImage path then F else overwrite F path buffer
  | _ => F

/-- The host files a command leaves: only `read_to` writes one. -/
def filesAfter (I : Image) (F : HostFiles) : Command → HostFiles
  | .readTo fd path size =>
    filesRead F path.bytes (I.read fd (clampSize size) (clampSize size)).1
  | _ => F

/-- A host file that is written leaves the paths of the image as they are. -/
theorem isImage_filesRead (F : HostFiles) (path : List UInt8)
    (o : Outcome Stop (Option (List UInt8))) : (filesRead F path o).isImage = F.isImage := by
  unfold filesRead
  split
  · split <;> rfl
  · rfl

/-- So does every command. -/
theorem isImage_filesAfter (I : Image) (F : HostFiles) (c : Command) :
    (I.filesAfter F c).isImage = F.isImage := by
  cases c with
  | readTo fd path size => exact isImage_filesRead F path.bytes _
  | _ => rfl

end Image

variable {I : Image} {F : HostFiles}

/-! ### Single commands -/

/-- A run of the machine is a run of the world. -/
theorem exec_eq {α : Type} {p : ExtProg α} {S S' : Store} {F F' : HostFiles} {o : Outcome Stop α}
    {L' : List Handle} {T' : List Store}
    (h : p.run hostHandler ⟨S, F, [], []⟩ = (o, ⟨S', F', L', T'⟩)) :
    exec p ⟨S, F⟩ = (o, ⟨S', F'⟩) := by
  simp only [exec, World.start, h]

/-- A part that changes nothing does not change the world a program leaves. -/
theorem exec_bind_world {α β : Type} (p : ExtProg α) {f : α → ExtProg β}
    (hf : ∀ a m, ((f a).run hostHandler m).2 = m) (w : World) :
    (exec (p >>= f) w).2 = (exec p w).2 := by
  simp only [exec, Prog.run_bind]
  rcases p.run hostHandler w.start with ⟨a | e, m⟩
  · simp only [follow_done, hf]
  · rfl

/-- A host file is read as it is. -/
theorem run_readHostFile (path : List UInt8) (m : Machine) :
    (readHostFile path).run hostHandler m = (.done (m.files path), m) :=
  run_ask (.readHostFile path) m

/-- A host file is written, on a path that does not lead to the image. -/
theorem run_writeHostFile {path : List UInt8} (bytes : List UInt8) {m : Machine}
    (hpath : m.files.isImage path = false) :
    (writeHostFile path bytes).run hostHandler m =
      (.done true, { m with files := overwrite m.files path bytes }) := by
  refine (run_ask (.writeHostFile path bytes) m).trans ?_
  simp only [hostHandler, hpath, Bool.false_eq_true, if_false]
  rfl

/-- Over the image the records do not say what bytes become. -/
theorem run_writeHostFile_image {path : List UInt8} (bytes : List UInt8) {m : Machine}
    (hpath : m.files.isImage path = true) :
    (writeHostFile path bytes).run hostHandler m = (.halted .outside, m) := by
  refine (run_ask (.writeHostFile path bytes) m).trans ?_
  simp only [hostHandler, hpath, if_true]
  rfl

/-- What `read_to` does with what it read. -/
def writeRead (path : List UInt8) : Option (List UInt8) → ExtProg Unit
  | none => pure ()
  | some buffer => do let _ ← writeHostFile path buffer

/-- What was read is written, if anything was. -/
theorem run_writeRead (path : List UInt8) (r : Option (List UInt8)) (m : Machine) :
    ((writeRead path r).run hostHandler m).2 =
      { m with files := Image.filesRead m.files path (.done r) } := by
  cases r with
  | none => rfl
  | some buffer =>
    simp only [writeRead, Image.filesRead, Prog.run_bind]
    cases hpath : m.files.isImage path with
    | true =>
      rw [run_writeHostFile_image buffer hpath]
      rfl
    | false =>
      rw [run_writeHostFile buffer hpath]
      rfl

namespace Image.Ok

/-- A creation on an image. -/
theorem exec_create (h : I.Ok) (isFile : Bool) (path : CString) :
    exec (createCommand isFile path.bytes) ⟨I.store, F⟩ =
      ((I.create isFile path.bytes).outcome, ⟨(I.create isFile path.bytes).image.store, F⟩) := by
  obtain ⟨L', hrun⟩ := h.run_create (F := F) isFile path.bytes path.nulFree
  exact exec_eq hrun

/-- An open on an image. -/
theorem exec_open (h : I.Ok) (path : CString) :
    exec (openFile path.bytes) ⟨I.store, F⟩ =
      ((I.openPath path.bytes).1, ⟨(I.openPath path.bytes).2.store, F⟩) := by
  obtain ⟨L', T', hrun⟩ := h.run_openFile (F := F) path.bytes path.nulFree
  exact exec_eq hrun

/-- A close on an image. -/
theorem exec_close (h : I.Ok) (fd : Nat) :
    exec (closeFile fd) ⟨I.store, F⟩ = ((I.closeFd fd).1, ⟨(I.closeFd fd).2.store, F⟩) := by
  obtain ⟨L', T', hrun⟩ := h.run_closeFile (F := F) fd
  exact exec_eq hrun

/-- A seek on an image. -/
theorem exec_seek (h : I.Ok) (fd pos : Nat) :
    exec (lseekPos fd pos) ⟨I.store, F⟩ = ((I.seek fd pos).1, ⟨(I.seek fd pos).2.store, F⟩) := by
  obtain ⟨L', T', hrun⟩ := h.run_lseekPos (F := F) fd pos
  exact exec_eq hrun

/-- A write on an image. -/
theorem exec_write (h : I.Ok) (fd : Nat) (data : List UInt8) :
    exec (writeToFile fd data) ⟨I.store, F⟩ =
      ((I.write fd data).outcome, ⟨(I.written fd data).store, F⟩) := by
  obtain ⟨L', hrun⟩ := h.run_writeToFile (F := F) fd data
  rw [← h.write_store]
  exact exec_eq hrun

/-- A read on an image. -/
theorem exec_read (h : I.Ok) (fd size capacity : Nat) :
    exec (readFile fd size capacity) ⟨I.store, F⟩ =
      ((I.read fd size capacity).1, ⟨(I.read fd size capacity).2.store, F⟩) := by
  obtain ⟨L', T', hrun⟩ := h.run_readFile (F := F) (T := []) fd size capacity
  exact exec_eq hrun

/-- A write from a host file, when it can be read. -/
theorem exec_writeFrom (h : I.Ok) (fd : Nat) (path : List UInt8) :
    (exec (writeToFileFromFile fd path) ⟨I.store, F⟩).2 =
      match hostData F path with
      | some data => ⟨(I.written fd data).store, F⟩
      | none => ⟨I.store, F⟩ := by
  unfold exec writeToFileFromFile hostData
  simp only [Prog.run_bind, run_readHostFile, follow_done, World.start]
  rcases F path with _ | buffer
  · rfl
  simp only
  by_cases hsize : buffer.length % 2 ^ 32 = 2 ^ 32 - 1
  · simp only [if_pos hsize]
    rfl
  · obtain ⟨L', hwrite⟩ := h.run_writeToFile (F := F) fd (buffer.take (buffer.length % 2 ^ 32))
    simp only [if_neg hsize, Prog.run_bind, hwrite, ← h.write_store]
    rcases (I.write fd (buffer.take (buffer.length % 2 ^ 32))).outcome with r | e
    · rfl
    · rfl

/-- The program from `read_file` on: it reads the image as it was. -/
theorem run_readFileToFile (h : I.Ok) (fd : Nat) (path : List UInt8) (size : Option Nat) :
    (readFileToFile fd path size).run hostHandler ⟨I.store, F, [], []⟩ =
      (readFile fd (clampSize size) (clampSize size) >>= writeRead path).run hostHandler
        ⟨I.store, F, [], []⟩ := by
  unfold readFileToFile
  cases size with
  | none =>
    simp only [Prog.run_bind, h.run_enter, follow_done, run_leave, h.layout.geometry,
      getMaxDataSizeOfAllBlocks_default]
    rfl
  | some size =>
    simp only [Prog.run_bind, h.run_enter, follow_done, run_leave, h.layout.geometry,
      getMaxDataSizeOfAllBlocks_default]
    rfl

/-- A read to a host file, whatever path it has. -/
theorem exec_readTo (h : I.Ok) (fd : Nat) (path : List UInt8) (size : Option Nat) :
    (exec (readFileToFile fd path size) ⟨I.store, F⟩).2 =
      ⟨(I.read fd (clampSize size) (clampSize size)).2.store,
        filesRead F path (I.read fd (clampSize size) (clampSize size)).1⟩ := by
  obtain ⟨L', T', hrun⟩ := h.run_readFile (F := F) (T := []) fd (clampSize size) (clampSize size)
  rw [exec, World.start, h.run_readFileToFile, Prog.run_bind, hrun]
  rcases (I.read fd (clampSize size) (clampSize size)).1 with r | e
  · simp only [follow_done, run_writeRead]
  · rfl

/-! ### One command -/

/-- **One command** from an image that keeps the invariant. -/
theorem step_after (h : I.Ok) (F : HostFiles) (c : Command) :
    (⟨I.store, F⟩ : World).step c = ⟨(I.after F c).store, I.filesAfter F c⟩ := by
  have hquiet : ∀ {p : ExtProg Unit}, Quiet p → (exec p ⟨I.store, F⟩).2 = ⟨I.store, F⟩ := by
    intro p hp
    obtain ⟨hstore, hfiles, _⟩ := hp.run (⟨I.store, F⟩ : World).start
    exact congrArg₂ World.mk hstore hfiles
  unfold World.step
  cases c with
  | init => exact congrArg Prod.snd (exec_eq (run_initFs I.store))
  | readFs => exact hquiet quiet_readFs
  | ls path => exact hquiet (quiet_ls path.bytes)
  | mkdir path => exact congrArg Prod.snd (h.exec_create (F := F) false path)
  | touch path => exact congrArg Prod.snd (h.exec_create (F := F) true path)
  | «open» path =>
    refine (exec_bind_world _ (fun _ _ => ?_) _).trans (congrArg Prod.snd (h.exec_open path))
    simp
  | close fd => exact congrArg Prod.snd (h.exec_close (F := F) fd)
  | write fd data =>
    refine (exec_bind_world _ (fun _ _ => ?_) _).trans (congrArg Prod.snd (h.exec_write fd data))
    simp
  | writeFrom fd path =>
    refine (h.exec_writeFrom (F := F) fd path.bytes).trans ?_
    simp only [after]
    split <;> rfl
  | read fd size =>
    refine (exec_bind_world _ (fun _ _ => ?_) _).trans
      (congrArg Prod.snd (h.exec_read fd size commandBufferLength))
    split <;> simp
  | readTo fd path size => exact h.exec_readTo (F := F) fd path.bytes size
  | lseek fd pos => exact congrArg Prod.snd (h.exec_seek (F := F) fd pos)

/-- **One command keeps the invariant.** -/
theorem after_ok (h : I.Ok) (F : HostFiles) (c : Command) : (I.after F c).Ok := by
  cases c with
  | init => exact formatted_ok
  | readFs => exact h
  | ls path => exact h
  | mkdir path => exact (h.createRun false path.bytes).ok h path.nulFree
  | touch path => exact (h.createRun true path.bytes).ok h path.nulFree
  | «open» path => exact h.openPath_ok path.bytes
  | close fd => exact h.closeFd_ok fd
  | write fd data => exact h.written_ok fd data
  | writeFrom fd path =>
    simp only [after]
    split
    · exact h.written_ok fd _
    · exact h
  | read fd size => exact h.read_ok fd size _
  | readTo fd path size => exact h.read_ok fd _ _
  | lseek fd pos => exact h.seek_ok fd pos

end Image.Ok

/-! ### Runs -/

/-- `init` leaves a new image. -/
theorem step_init (w : World) : w.step .init = ⟨formatted.store, w.files⟩ :=
  congrArg Prod.snd (exec_eq (run_initFs w.store))

/-- **Every guarded run**: what `init` establishes and every command that meets the condition
    preserves holds of every image such commands reach, with the invariant. -/
theorem ReachableBy.image {Meets : World → Command → Prop} (Inv : Image → Prop) {w : World}
    (h : ReachableBy Meets w) (hinit : Inv formatted)
    (hstep : ∀ (I : Image) (F : HostFiles) (c : Command), I.Ok → Inv I → Meets ⟨I.store, F⟩ c →
      Inv (I.after F c)) : ∃ I : Image, I.Ok ∧ Inv I ∧ w = ⟨I.store, w.files⟩ := by
  induction h with
  | init w => exact ⟨formatted, formatted_ok, hinit, by rw [step_init]⟩
  | @step w c _ hmeets ih =>
    obtain ⟨I, hI, hinv, hw⟩ := ih
    refine ⟨I.after w.files c, hI.after_ok w.files c, hstep I w.files c hI hinv (hw ▸ hmeets), ?_⟩
    rw [hw, hI.step_after]
  | host files _ ih =>
    obtain ⟨I, hI, hinv, hw⟩ := ih
    exact ⟨I, hI, hinv, by rw [hw]⟩

namespace Reachable

variable {w : World}

/-- **Every run**: a reachable world has an image that keeps the invariant, and with it
    whatever `init` establishes and every command preserves. -/
theorem invariant (h : Reachable w) (Inv : Image → Prop) (hinit : Inv formatted)
    (hstep : ∀ (I : Image) (F : HostFiles) (c : Command), I.Ok → Inv I → Inv (I.after F c)) :
    ∃ I : Image, I.Ok ∧ Inv I ∧ w = ⟨I.store, w.files⟩ :=
  ReachableBy.image Inv h hinit fun I F c hI hinv _ => hstep I F c hI hinv

/-- **A world that runs reach** has an image that keeps the invariant. -/
theorem image (h : Reachable w) : ∃ I : Image, I.Ok ∧ w = ⟨I.store, w.files⟩ := by
  obtain ⟨I, hI, _, hw⟩ := h.invariant (fun _ => True) trivial fun _ _ _ _ _ => trivial
  exact ⟨I, hI, hw⟩

/-- Its inodes are those of the geometry. -/
theorem inode_lt (h : Reachable w) {i : Nat} (hi : w.store.InodeReserved i) : i < 128 := by
  obtain ⟨I, hI, hw⟩ := h.image
  rw [hw] at hi
  rw [← hI.layout.inodesLength]
  exact Taken.lt_length hi

/-- A command makes no path lead to the image, and none away from it. -/
theorem isImage_step (h : Reachable w) (c : Command) :
    (w.step c).files.isImage = w.files.isImage := by
  obtain ⟨I, hI, hw⟩ := h.image
  rw [hw, hI.step_after]
  exact I.isImage_filesAfter w.files c

/-- Only `read_to` changes the host files. -/
theorem files_step (h : Reachable w) {c : Command} (hc : ¬ c.WritesHost) :
    (w.step c).files = w.files := by
  obtain ⟨I, hI, hw⟩ := h.image
  rw [hw, hI.step_after]
  cases c with
  | readTo fd path size => exact absurd trivial hc
  | _ => rfl

/-- Any further commands that do not write onto the image. -/
theorem steps (h : Reachable w) (cs : List Command) (hcs : ∀ c ∈ cs, ¬ c.OntoImage w.files) :
    Reachable (w.steps cs) := by
  induction cs generalizing w with
  | nil => exact h
  | cons c cs ih =>
    obtain ⟨hc, hrest⟩ := List.forall_mem_cons.mp hcs
    refine ih (h.step hc) fun d hd => ?_
    rw [Command.ontoImage_congr (h.isImage_step c)]
    exact hrest d hd

/-- Commands that write no host file leave the host files. -/
theorem files_steps (h : Reachable w) {cs : List Command} (hcs : ∀ c ∈ cs, ¬ c.WritesHost) :
    (w.steps cs).files = w.files := by
  induction cs generalizing w with
  | nil => rfl
  | cons c cs ih =>
    obtain ⟨hc, hrest⟩ := List.forall_mem_cons.mp hcs
    refine (ih (h.step fun honto => hc honto.writesHost) hrest).trans (h.files_step hc)

end Reachable

end MiniExt
