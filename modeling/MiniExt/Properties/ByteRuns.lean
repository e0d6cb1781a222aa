import MiniExt.Disk.Refinement
import MiniExt.Input
import MiniExt.Properties.FieldWidths
import MiniExt.Runs.Answers

namespace MiniExt

open Lib

/-!
# Runs on the bytes of an image

What was proved of the record store holds of the file: from `init` on, whatever the file held
before and however the host splits its transfers, every command comes back, ends as it does on
records, and leaves a file that holds the records it leaves there.

* `runCommands` — commands on a device, each in a machine of its own;
* `World.outcomes` — how they end on records;
* `runCommands_refines` — that they end the same on the bytes;
* `clientLoop_comes_back` — so the client never waits for a command.
-/

/-! ### Commands one after the other -/

/-- Commands on a device: how each ends, and what they leave.  A command that halts is followed
    by the next one; a command that does not come back is the last. -/
def runCommands {δ : Type} (d : PartialHandler device δ Stop) (a : ImageAccess δ) :
    List Command → δ × HostFiles → Option (List (Outcome Stop Unit) × δ × HostFiles)
  | [], s => some ([], s)
  | c :: cs, s =>
    (c.prog.run? (byteHandler d a) ⟨s.1, s.2, []⟩).bind fun r =>
      (runCommands d a cs (r.2.device, r.2.files)).map (Prod.map (r.1 :: ·) id)

/-- Commands, and more commands after them. -/
theorem runCommands_append {δ : Type} (d : PartialHandler device δ Stop) (a : ImageAccess δ)
    (cs ds : List Command) (s : δ × HostFiles) :
    runCommands d a (cs ++ ds) s = (runCommands d a cs s).bind fun r =>
      (runCommands d a ds r.2).map (Prod.map (r.1 ++ ·) id) := by
  induction cs generalizing s with
  | nil =>
    rw [List.nil_append, runCommands, Option.bind_some]
    rcases runCommands d a ds s with _ | r
    · rfl
    · rfl
  | cons c cs ih =>
    rw [List.cons_append, runCommands, runCommands]
    rcases c.prog.run? (byteHandler d a) ⟨s.1, s.2, []⟩ with _ | r
    · rfl
    simp only [Option.bind_some, ih]
    rcases runCommands d a cs (r.2.device, r.2.files) with _ | ⟨ends, s'⟩
    · rfl
    simp only [Option.bind_some, Option.map_some, Prod.map_apply, id_eq]
    rcases runCommands d a ds s' with _ | r'
    · rfl
    · rfl

/-- How each command of a run ends. -/
def World.outcomes (w : World) : List Command → List (Outcome Stop Unit)
  | [] => []
  | c :: cs => (exec c.prog w).1 :: (w.step c).outcomes cs

/-- Partial transfers make no difference to a run of commands. -/
theorem runCommands_settles (schedule : Schedule) (cs : List Command) (s : Transfers)
    (files : HostFiles) :
    Settles (Prod.map Transfers.file id)
      (fun fuel => runCommands (scheduleHandler schedule fuel) Transfers.access cs (s, files))
      (runCommands fileHandler ImageFile.access cs (s.file, files)) := by
  induction cs generalizing s files with
  | nil => exact settles_const [] (s, files)
  | cons c cs ih =>
    refine (run?_settles (byteHandler_settles schedule) c.prog ⟨s, files, []⟩).bind fun o m => ?_
    exact (ih m.device m.files).map (o :: ·) (u := id) (v := id) fun _ => rfl

/-! ### One command -/

/-- A command that does not name the image keeps the contract of the default geometry. -/
theorem Command.careful_default {F : HostFiles} {c : Command} (hc : ¬ c.NamesImage F) :
    Careful defaultFsInfo F c.prog :=
  Command.careful defaultFsInfo_inRange (by decide) hc fun _ => rfl

/-- A command on a file that represents the image, when it never lacks an answer. -/
theorem run?_command {w : World} {f : ImageFile} {c : Command} (hc : ¬ c.NamesImage w.files)
    (hf : Represents f.bytes w.store)
    (hanswered : (exec c.prog w).1 ≠ .halted .outside) :
    ∃ m, c.prog.run? (byteHandler fileHandler ImageFile.access) ⟨f, w.files, []⟩ =
        some ((exec c.prog w).1, m) ∧
      Represents m.device.bytes (w.step c).store ∧ m.files = (w.step c).files := by
  have hstart : SameMachine w.files w.start ⟨f, w.files, []⟩ := ⟨hf, rfl, rfl, rfl⟩
  rcases hrun : c.prog.run hostHandler w.start with ⟨o, m'⟩
  have hexec : exec c.prog w = (o, ⟨m'.store, m'.files⟩) := by
    rw [exec, hrun]
  have hend : o.EndsIn (· ≠ Stop.outside) := by
    rw [hexec] at hanswered
    cases o with
    | done a => exact trivial
    | halted e => exact fun he => hanswered (congrArg Outcome.halted he)
  obtain ⟨m, hm, hsame⟩ := refines_hostHandler.run (Command.careful_default hc) hstart hrun hend
  rw [World.step, hexec]
  exact ⟨m, hm, hsame.image, hsame.files⟩

/-! ### Runs on whole transfers -/

/-- The commands come back on the file, end as they do on the records, and leave a file of the
    records that they leave there. -/
def RunsAlike (cs : List Command) (w : World) (f : ImageFile) : Prop :=
  ∃ f', runCommands fileHandler ImageFile.access cs (f, w.files) =
      some (w.outcomes cs, f', (w.steps cs).files) ∧ Represents f'.bytes (w.steps cs).store

/-- One command runs alike, then the others do. -/
theorem RunsAlike.cons {w : World} {f : ImageFile} {c : Command} {cs : List Command}
    (hc : ¬ c.NamesImage w.files) (hf : Represents f.bytes w.store)
    (hanswered : (exec c.prog w).1 ≠ .halted .outside)
    (hrest : ∀ f' : ImageFile, Represents f'.bytes (w.step c).store →
      RunsAlike cs (w.step c) f') : RunsAlike (c :: cs) w f := by
  obtain ⟨m, hm, himage, hfiles⟩ := run?_command hc hf hanswered
  obtain ⟨f', hrun, hf'⟩ := hrest m.device himage
  refine ⟨f', ?_, hf'⟩
  rw [runCommands, hm, Option.bind_some, hfiles, hrun]
  rfl

/-- Commands on a file that represents an image of the invariant. -/
theorem Image.Ok.runsAlike {I : Image} (h : I.Ok) {F : HostFiles} {f : ImageFile}
    (hf : Represents f.bytes I.store) {cs : List Command} (hcs : ∀ c ∈ cs, ¬ c.NamesImage F) :
    RunsAlike cs ⟨I.store, F⟩ f := by
  induction cs generalizing I F f with
  | nil => exact ⟨f, rfl, hf⟩
  | cons c cs ih =>
    obtain ⟨hc, hrest⟩ := List.forall_mem_cons.mp hcs
    refine .cons hc hf (h.answered fun honto => hc honto.namesImage) fun f' hf' => ?_
    rw [h.step_after] at hf' ⊢
    refine ih (h.after_ok F c) hf' fun d hd => ?_
    rw [Command.namesImage_congr (I.isImage_filesAfter F c)]
    exact hrest d hd

/-- `init` and commands, on any file at all. -/
theorem runsAlike_init {cs : List Command} (f : ImageFile) {F : HostFiles}
    (hcs : ∀ c ∈ cs, ¬ c.NamesImage F) : RunsAlike (.init :: cs) ⟨.blank, F⟩ f := by
  refine .cons id (represents_blank f.bytes) ?_ fun f' hf' => ?_
  · show (exec initFs _).1 ≠ _
    rw [exec_eq (run_initFs .blank)]
    rintro ⟨⟩
  · rw [step_init] at hf' ⊢
    exact formatted_ok.runsAlike hf' hcs

/-! ### Every run -/

/-- What commands do with whole transfers they do with transfers of any sizes, with enough turns
    of the transfer loops. -/
theorem RunsAlike.scheduled {w : World} {cs : List Command} {s : Transfers}
    (h : RunsAlike cs w s.file) (schedule : Schedule) :
    ∃ s' n, (∀ fuel, n ≤ fuel →
        runCommands (scheduleHandler schedule fuel) Transfers.access cs (s, w.files) =
          some (w.outcomes cs, s', (w.steps cs).files)) ∧
      Represents s'.file.bytes (w.steps cs).store := by
  obtain ⟨f', hwhole, hf'⟩ := h
  have hsettles := runCommands_settles schedule cs s w.files
  rw [hwhole] at hsettles
  obtain ⟨⟨s', files'⟩, herase, -, n, hn⟩ := hsettles
  obtain ⟨hfile, hother⟩ : s'.file = f' ∧ files' = (w.steps cs).files := Prod.mk.inj herase
  rw [← hfile] at hf'
  rw [hother] at hn
  exact ⟨s', n, hn, hf'⟩

/-- **The bytes refine the records.**  `init` and any commands that are not given the image as a
    host file, on a file of any content and with transfers of any sizes: with enough turns of the
    transfer loops every command comes back, and all end as they do on records; the file then
    holds the records, and the host files are the same. -/
theorem runCommands_refines (schedule : Schedule) (s : Transfers) (files : HostFiles)
    {cs : List Command} (hcs : ∀ c ∈ cs, ¬ c.NamesImage files) :
    ∃ s' n, (∀ fuel, n ≤ fuel →
        runCommands (scheduleHandler schedule fuel) Transfers.access (.init :: cs) (s, files) =
          some ((⟨.blank, files⟩ : World).outcomes (.init :: cs), s',
            ((⟨.blank, files⟩ : World).steps (.init :: cs)).files)) ∧
      Represents s'.file.bytes ((⟨.blank, files⟩ : World).steps (.init :: cs)).store :=
  (runsAlike_init s.file hcs).scheduled schedule

/-- One byte at a time, over a file that held something else: a directory, and a host file. -/
theorem runCommands_refines_example :
    ∃ s' n, (∀ fuel, n ≤ fuel →
        runCommands (scheduleHandler (fun _ => 0) fuel) Transfers.access
            [.init, .mkdir (bufferLine [47, 97]), .readTo 0 (bufferLine [98]) none]
            (⟨⟨[1, 2, 3], 0⟩, 0⟩, .onlyImage) =
          some ((⟨.blank, .onlyImage⟩ : World).outcomes
              [.init, .mkdir (bufferLine [47, 97]), .readTo 0 (bufferLine [98]) none], s',
            ((⟨.blank, .onlyImage⟩ : World).steps
              [.init, .mkdir (bufferLine [47, 97]), .readTo 0 (bufferLine [98]) none]).files)) ∧
      Represents s'.file.bytes ((⟨.blank, .onlyImage⟩ : World).steps
        [.init, .mkdir (bufferLine [47, 97]), .readTo 0 (bufferLine [98]) none]).store :=
  runCommands_refines (fun _ => 0) ⟨⟨[1, 2, 3], 0⟩, 0⟩ .onlyImage (by decide)

/-! ### The client -/

/-- One turn of the client on records: the world it leaves, or how the client ends. -/
def World.clientTurn (w : World) (line : CString) : World ⊕ ClientEnd :=
  match dispatch line with
  | .help | .rejected => .inl w
  | .quit => .inr .returned
  | .memoryError => .inr .memoryError
  | .run c =>
    match (exec c.prog w).1 with
    | .done _ => .inl (w.step c)
    | .halted .exit | .halted .abort => .inr .processEnded
    | .halted .memoryError | .halted .outside => .inr .memoryError

/-- The loop of the client on records. -/
def recordLoop : (fuel : Nat) → (buffer stdin : List UInt8) → World →
    List CString × Option ClientEnd
  | 0, _, _, _ => ([], none)
  | fuel + 1, buffer, stdin, w =>
    match readCommandFromStdin buffer stdin with
    | .halted _ => ([], some .memoryError)
    | .done (buffer, stdin) =>
      let line := bufferLine buffer
      match w.clientTurn line with
      | .inr e => ([line], some e)
      | .inl w =>
        let (lines, e) := recordLoop fuel buffer stdin w
        (line :: lines, e)

/-- The image file holds the records of a world, and the host files are the same. -/
structure ByteWorld.Holds (bw : ByteWorld) (w : World) : Prop where
  image : Represents bw.image w.store
  files : bw.files = w.files

/-- **A turn** on the bytes is the turn on the records. -/
theorem ByteWorld.Holds.turn {bw : ByteWorld} {w : World} (h : bw.Holds w) (hw : Reachable w)
    {line : CString} (hline : ¬ (dispatch line).NamesImage w.files) :
    (∃ bw' w', bw.turn line = .next bw' ∧ w.clientTurn line = .inl w' ∧ bw'.Holds w' ∧
        Reachable w' ∧ w'.files.isImage = w.files.isImage) ∨
      ∃ e, bw.turn line = .ended e ∧ w.clientTurn line = .inr e := by
  unfold ByteWorld.turn World.clientTurn
  revert hline
  rcases dispatch line with _ | _ | c | _ | _ <;> intro hline
  · exact .inl ⟨bw, w, rfl, rfl, h, hw, rfl⟩
  · exact .inl ⟨bw, w, rfl, rfl, h, hw, rfl⟩
  · -- the command comes back, and ends as on the records
    have hc : ¬ c.NamesImage w.files := hline
    have honto : ¬ c.OntoImage w.files := fun honto => hc honto.namesImage
    obtain ⟨m, hm, himage, hfiles⟩ := run?_command (f := ⟨bw.image, 0⟩) hc h.image
      (hw.answered honto)
    rw [← h.files] at hm
    dsimp only
    rw [hm]
    rcases (exec c.prog w).1 with _ | e
    · exact .inl ⟨_, w.step c, rfl, rfl, ⟨himage, hfiles⟩, hw.step honto, hw.isImage_step c⟩
    · cases e <;> exact .inr ⟨_, rfl, rfl⟩
  · exact .inr ⟨.returned, rfl, rfl⟩
  · exact .inr ⟨.memoryError, rfl, rfl⟩

/-- **The client on bytes is the client on records**: from a file that holds the records of a
    reachable world, whatever the input, as long as no line of it names the image as a host file,
    it dispatches the same lines and ends the same way.  It never waits for a command: it goes on
    as long as it has turns left. -/
theorem clientLoop_refines {bw : ByteWorld} {w : World} (h : bw.Holds w) (hw : Reachable w)
    {fuel : Nat} {buffer stdin : List UInt8} (hspares : SparesImage w.files fuel buffer stdin) :
    clientLoop fuel buffer stdin bw = recordLoop fuel buffer stdin w ∧
      ((clientLoop fuel buffer stdin bw).2 = none →
        (clientLoop fuel buffer stdin bw).1.length = fuel) := by
  induction fuel generalizing buffer stdin bw w with
  | zero => exact ⟨rfl, fun _ => rfl⟩
  | succ fuel ih =>
    simp only [clientLoop, recordLoop]
    rcases hread : readCommandFromStdin buffer stdin with ⟨buffer', stdin'⟩ | e
    · obtain ⟨hline, hrest⟩ := hspares.next hread
      dsimp only
      rcases h.turn hw hline with ⟨bw', w', hbytes, hrecords, h', hw', hpaths⟩ |
        ⟨e, hbytes, hrecords⟩
      · obtain ⟨heq, hturns⟩ := ih h' hw' ((sparesImage_congr hpaths _ _ _).mpr hrest)
        rw [hbytes, hrecords]
        dsimp only
        refine ⟨by rw [heq], fun hnone => ?_⟩
        rw [List.length_cons, hturns hnone]
      · rw [hbytes, hrecords]
        refine ⟨rfl, ?_⟩
        rintro ⟨⟩
    · refine ⟨rfl, ?_⟩
      rintro ⟨⟩

/-- The commands leave a file of their records. -/
theorem RunsAlike.holds {w : World} {cs : List Command} {f : ImageFile} (h : RunsAlike cs w f) :
    ∃ bw : ByteWorld, bw.Holds (w.steps cs) := by
  obtain ⟨f', -, hf'⟩ := h
  exact ⟨⟨f'.bytes, (w.steps cs).files⟩, hf', rfl⟩

/-- The lines `ls /` and `quit`, on a new image. -/
theorem clientLoop_refines_new : ∃ bw : ByteWorld,
    clientLoop 2 (List.replicate 256 0) [108, 115, 32, 47, 10, 113, 117, 105, 116, 10] bw =
        recordLoop 2 (List.replicate 256 0) [108, 115, 32, 47, 10, 113, 117, 105, 116, 10]
          ((⟨.blank, .onlyImage⟩ : World).step .init) ∧
      ((clientLoop 2 (List.replicate 256 0) [108, 115, 32, 47, 10, 113, 117, 105, 116, 10] bw).2 =
          none →
        (clientLoop 2 (List.replicate 256 0)
          [108, 115, 32, 47, 10, 113, 117, 105, 116, 10] bw).1.length = 2) := by
  obtain ⟨bw, hbw⟩ := (runsAlike_init (F := .onlyImage) ⟨[], 0⟩ (List.forall_mem_nil _)).holds
  exact ⟨bw, clientLoop_refines hbw (.init _) (by decide +kernel)⟩

end MiniExt
