import MiniExt.Properties.ByteRuns

namespace MiniExt

open Lib

/-!
# The image as a host file

`write_from` and `read_to` take any path of the host, the one of the image too.  To read the image
is to read some file; but `read_to` opens it once more and writes over its beginning, where the
superblock and the table are.

* `run?_writeFrom_image` — `write_from` of the image writes the bytes it has;
* `run?_readTo_image` — `read_to` onto the image, after any run;
* `Represents.rewrite` — a superblock and a table among what was read become those of the image;
* `rewritten_reached` — so commands bring back the superblock and the table of a new image.
-/

section Access

variable {w : World} {f : ImageFile} {fd : Nat} {path : CString}

/-- What `write_from` does with what it read of the host file. -/
def writeContent (fd : Nat) : Option (List UInt8) → ExtProg Unit
  | none => pure ()
  | some buffer =>
    if buffer.length % 2 ^ 32 = 2 ^ 32 - 1 then pure ()
    else do
      let _ ← writeToFile fd (buffer.take (buffer.length % 2 ^ 32))

/-- `write_from` reads a host file, then writes what it read. -/
theorem writeToFileFromFile_eq (fd : Nat) (path : List UInt8) :
    writeToFileFromFile fd path = readHostFile path >>= writeContent fd :=
  rfl

/-- What it does then keeps the contract. -/
theorem careful_writeContent (F : HostFiles) (fd : Nat) (r : Option (List UInt8)) :
    Careful defaultFsInfo F (writeContent fd r) := by
  unfold writeContent
  split
  · exact careful_pure _
  · split
    · exact careful_pure _
    · exact (careful_writeToFile defaultFsInfo_inRange (by decide) _ _).bind fun _ _ =>
        careful_pure _

/-- **`write_from` of the image** does what it does on the records, when the host files say of the
    image what it holds. -/
theorem run?_writeFrom_image (hw : Reachable w) (hf : Represents f.bytes w.store)
    (hpath : w.files.isImage path.bytes = true) (hown : w.files path.bytes = some f.bytes) :
    ∃ m, (Command.writeFrom fd path).prog.run? (byteHandler fileHandler ImageFile.access)
        ⟨f, w.files, []⟩ = some ((exec (Command.writeFrom fd path).prog w).1, m) ∧
      Represents m.device.bytes (w.step (.writeFrom fd path)).store ∧
      m.files = (w.step (.writeFrom fd path)).files := by
  have hanswered := hw.answered (c := .writeFrom fd path) id
  have hstart : SameMachine w.files w.start ⟨f, w.files, []⟩ := ⟨hf, rfl, rfl, rfl⟩
  -- on both sides the same bytes are read
  have hrecords : (Command.writeFrom fd path).prog.run hostHandler w.start =
      (writeContent fd (some f.bytes)).run hostHandler w.start := by
    show (writeToFileFromFile fd path.bytes).run _ _ = _
    rw [writeToFileFromFile_eq, Prog.run_bind, run_readHostFile, follow_done, ← hown]
    rfl
  have hbytes : (Command.writeFrom fd path).prog.run? (byteHandler fileHandler ImageFile.access)
      ⟨f, w.files, []⟩ = (writeContent fd (some f.bytes)).run?
        (byteHandler fileHandler ImageFile.access) ⟨f, w.files, []⟩ := by
    have hcall : (readHostFile path.bytes).run? (byteHandler fileHandler ImageFile.access)
        ⟨f, w.files, []⟩ = some (.done (some f.bytes), ⟨f, w.files, []⟩) := by
      refine (Prog.run?_perform (I := host) _ (.readHostFile path.bytes) _).trans ?_
      exact congrArg (fun r => some (Outcome.done r, _)) (if_pos hpath)
    show (writeToFileFromFile fd path.bytes).run? _ _ = _
    rw [writeToFileFromFile_eq, Prog.run?_bind, hcall, follow?_done]
  unfold World.step
  rw [exec, hrecords] at hanswered ⊢
  rw [hbytes]
  rcases hrun : (writeContent fd (some f.bytes)).run hostHandler w.start with ⟨o, m'⟩
  rw [hrun] at hanswered
  have hend : o.EndsIn (· ≠ Stop.outside) := by
    cases o with
    | done a => exact trivial
    | halted e => exact fun he => hanswered (congrArg Outcome.halted he)
  obtain ⟨m, hm, hsame⟩ :=
    refines_hostHandler.run (careful_writeContent w.files fd _) hstart hrun hend
  exact ⟨m, hm, hsame.image, hsame.files⟩

/-- **`read_to` onto the image**: it reads as it does on the records, and what was read is written
    over the beginning of the file it leaves. -/
theorem run?_readTo_image (hw : Reachable w) (hf : Represents f.bytes w.store) {size : Option Nat}
    (hpath : w.files.isImage path.bytes = true) {buffer : List UInt8}
    (hread : (exec (readFile fd (Image.clampSize size) (Image.clampSize size)) w).1 =
      .done (some buffer)) :
    ∃ bytes m, Represents bytes (w.step (.readTo fd path size)).store ∧
      (Command.readTo fd path size).prog.run? (byteHandler fileHandler ImageFile.access)
        ⟨f, w.files, []⟩ = some (.done (), m) ∧
      m.device.bytes = writeAt 0 bytes 0 buffer ∧ m.files = w.files := by
  obtain ⟨I, hI, hstore⟩ := hw.image
  generalize w.files = F at hstore hpath ⊢
  subst hstore
  rw [hI.exec_read] at hread
  have hstart : SameMachine F (⟨I.store, F⟩ : World).start ⟨f, F, []⟩ := ⟨hf, rfl, rfl, rfl⟩
  -- the parts of the program, each matched on the bytes
  obtain ⟨m₁, hm₁, hsame₁⟩ := refines_hostHandler.run obeys_enter hstart hI.run_enter trivial
  obtain ⟨m₂, hm₂, hsame₂⟩ := refines_hostHandler.run careful_leave hsame₁ run_leave trivial
  obtain ⟨L, T, hrun⟩ := hI.run_readFile (F := F) (T := []) fd (Image.clampSize size)
    (Image.clampSize size)
  rw [hread] at hrun
  obtain ⟨m₃, hm₃, hsame₃⟩ :=
    refines_hostHandler.run (careful_readFile fd _ _) hsame₂ hrun trivial
  have hsize : ∀ n, n = Image.clampSize size → (readFile fd n n).run?
      (byteHandler fileHandler ImageFile.access) m₂ = some (.done (some buffer), m₃) := by
    rintro n rfl
    exact hm₃
  have hfiles : m₃.files = F := hsame₃.files
  refine ⟨m₃.device.bytes, { m₃ with device := ImageFile.access.writeOver buffer m₃.device },
    ?_, ?_, rfl, hfiles⟩
  · rw [hI.step_after]
    exact hsame₃.image
  · show (readFileToFile fd path.bytes size).run? _ _ = _
    unfold readFileToFile
    rw [Prog.run?_bind, hm₁, follow?_done]
    dsimp only
    rw [Prog.run?_bind, hm₂, follow?_done, Prog.run?_bind, hsize _ ?_, follow?_done]
    · dsimp only
      have hcall : (writeHostFile path.bytes buffer).run? (byteHandler fileHandler ImageFile.access)
          m₃ = some (.done true,
            { m₃ with device := ImageFile.access.writeOver buffer m₃.device }) := by
        refine (Prog.run?_perform (I := host) _ (.writeHostFile path.bytes buffer) m₃).trans ?_
        rw [byteHandler, hfiles, if_pos hpath]
        rfl
      rw [Prog.run?_bind, hcall, follow?_done]
      rfl
    · rw [hI.layout.geometry]
      cases size with
      | none => rfl
      | some size => rfl

end Access

/-- A superblock and a table, written over the beginning of a file of records. -/
theorem Represents.rewrite {bytes : List UInt8} {st : Store} (h : Represents bytes st)
    {sb : Superblock} (hsb : sb.FitsIn defaultFsInfo) {dt : DescriptorsTable}
    (hdt : dt.FitsIn defaultFsInfo) :
    Represents (writeAt 0 bytes 0 (encodeSuperblock sb ++ encodeTable dt))
      { st with superblock := some sb, descriptorsTable := some dt } := by
  have hlen : (encodeSuperblock sb).length = sizeofSuperblock defaultFsInfo := by
    rw [encodeSuperblock, List.length_append, List.length_append, length_encodeFsInfo,
      length_encodeBools, length_encodeBools, hsb.inodes, hsb.blocks]
    rfl
  rw [← writeAt_append, Nat.zero_add, hlen]
  exact (h.put_superblock hsb).put_table hdt

/-- **A superblock and a table of one's own**: when they are what `read_to` reads of a file, and the
    path leads to the image, they are the superblock and the table afterwards. -/
theorem runCommands_rewrite {w : World} (hw : Reachable w) {f : ImageFile}
    (hf : Represents f.bytes w.store) {fd : Nat} {path : CString} {size : Option Nat}
    (hpath : w.files.isImage path.bytes = true) {sb : Superblock} (hsb : sb.FitsIn defaultFsInfo)
    {dt : DescriptorsTable} (hdt : dt.FitsIn defaultFsInfo)
    (hread : (exec (readFile fd (Image.clampSize size) (Image.clampSize size)) w).1 =
      .done (some (encodeSuperblock sb ++ encodeTable dt))) :
    ∃ f', runCommands fileHandler ImageFile.access [.readTo fd path size] (f, w.files) =
        some ([.done ()], f', w.files) ∧
      Represents f'.bytes { (w.step (.readTo fd path size)).store with
        superblock := some sb, descriptorsTable := some dt } := by
  obtain ⟨bytes, m, himage, hm, hbytes, hfiles⟩ := run?_readTo_image hw hf hpath hread
  refine ⟨m.device, ?_, hbytes ▸ himage.rewrite hsb hdt⟩
  rw [runCommands, hm, Option.bind_some, hfiles]
  rfl

/-! ### A run that ends so -/

/-- The path of the image. -/
def imagePath : CString := bufferLine [116, 101, 115, 116, 95, 102, 115]

/-- The path of a host file with the beginning of a new image. -/
def headPath : CString := bufferLine [104]

/-- One host file, `h`, and the image at `test_fs`. -/
def headFiles : HostFiles where
  file path := if path = imagePath.bytes then 0 else if path = headPath.bytes then 1 else 2
  image := 0
  content n :=
    if n = 1 then some (encodeSuperblock formatted.sb ++ encodeTable formatted.dt) else none

/-- `touch /f`, `touch /g`, `open /f`, `open /g`, `write_from 1 h`, `lseek 1 0`. -/
def headCommands : List Command :=
  [.touch (bufferLine [47, 102]), .touch (bufferLine [47, 103]), .open (bufferLine [47, 102]),
    .open (bufferLine [47, 103]), .writeFrom 1 headPath, .lseek 1 0]

/-- A file `/f` without content, open as 0, and as 1 a file that holds the beginning of a new
    image. -/
def headWorld : World := ((World.mk .blank headFiles).step .init).steps headCommands

/-- The commands reach it. -/
theorem reachable_headWorld : Reachable headWorld := by
  unfold headWorld
  exact (Reachable.init _).steps _ (by decide)

/-- They leave the host files as they were. -/
theorem files_headWorld : headWorld.files = headFiles := by
  unfold headWorld
  rw [(Reachable.init _).files_steps (by decide), step_init]

/-- The superblock of a new image fits. -/
theorem formatted_sb_fitsIn : formatted.sb.FitsIn defaultFsInfo :=
  ⟨by decide +kernel, by decide +kernel, by decide +kernel⟩

/-- The table of a new image fits. -/
theorem formatted_dt_fitsIn : formatted.dt.FitsIn defaultFsInfo :=
  ⟨by decide +kernel, by decide +kernel, by decide +kernel, by decide +kernel, by decide +kernel⟩

/-- The commands run on bytes, from an empty file on. -/
theorem runCommands_headWorld : ∃ f : ImageFile,
    runCommands fileHandler ImageFile.access (.init :: headCommands) (⟨[], 0⟩, headFiles) =
      some (List.replicate 7 (.done ()), f, headFiles) ∧ Represents f.bytes headWorld.store := by
  have halike : RunsAlike (.init :: headCommands) ⟨.blank, headFiles⟩ ⟨[], 0⟩ :=
    runsAlike_init _ (by decide)
  obtain ⟨f, hrun, hf⟩ := halike
  have hsteps : (⟨.blank, headFiles⟩ : World).steps (.init :: headCommands) = headWorld := by
    unfold headWorld World.steps
    rw [List.foldl_cons]
  have houtcomes : (⟨.blank, headFiles⟩ : World).outcomes (.init :: headCommands) =
      List.replicate 7 (.done ()) := by
    decide +kernel
  rw [hsteps] at hrun hf
  rw [houtcomes, files_headWorld] at hrun
  exact ⟨f, hrun, hf⟩

/-- The image once the beginning of a new one was written over it. -/
def rewrittenStore : Store :=
  { (headWorld.step (.readTo 1 imagePath none)).store with
    superblock := some formatted.sb
    descriptorsTable := some formatted.dt }

/-- **The last command**: `read_to 1` onto the image. -/
theorem runCommands_rewritten {f : ImageFile} (hf : Represents f.bytes headWorld.store) :
    ∃ f', runCommands fileHandler ImageFile.access [.readTo 1 imagePath none] (f, headFiles) =
        some ([.done ()], f', headFiles) ∧ Represents f'.bytes rewrittenStore := by
  have hread : (exec (readFile 1 (Image.clampSize none) (Image.clampSize none)) headWorld).1 =
      .done (some (encodeSuperblock formatted.sb ++ encodeTable formatted.dt)) := by
    decide +kernel
  have hpath : headWorld.files.isImage imagePath.bytes = true := by
    rw [files_headWorld]
    decide
  have hrun := runCommands_rewrite reachable_headWorld hf hpath formatted_sb_fitsIn
    formatted_dt_fitsIn hread
  rw [files_headWorld] at hrun
  exact hrun

/-- **The run on bytes**, from an empty file on: every command returns. -/
theorem rewritten_reached : ∃ f : ImageFile,
    runCommands fileHandler ImageFile.access
        (.init :: headCommands ++ [.readTo 1 imagePath none]) (⟨[], 0⟩, headFiles) =
      some (List.replicate 8 (.done ()), f, headFiles) ∧ Represents f.bytes rewrittenStore := by
  obtain ⟨f, hrun, hf⟩ := runCommands_headWorld
  obtain ⟨f', hlast, hf'⟩ := runCommands_rewritten hf
  refine ⟨f', ?_, hf'⟩
  rw [runCommands_append, hrun, Option.bind_some, hlast]
  rfl

end MiniExt
