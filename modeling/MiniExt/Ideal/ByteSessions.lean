import MiniExt.Ideal.Sessions
import MiniExt.Lib.PrintingHosts
import MiniExt.Properties.ByteRuns

namespace MiniExt

open Lib

/-!
# Ideal — sessions on the bytes of an image

The user of the client has a file and reads what is printed.  With any content of the file before
`init` and with transfers of any sizes, the commands of a session say what the session says, and
the file holds the records of an image that shows what the session has come to.

* `printCommands` — commands on a device, with what they say;
* `run?_print` — one command on bytes, and on records;
* `Shows.printCommands` — a session on whole transfers;
* `sessions_on_bytes` — every session.
-/

/-- Commands on a device, one after the other, each in a machine of its own: how each ends, and
    what it says. -/
def printCommands {δ : Type} (d : PartialHandler device δ Stop) (a : ImageAccess δ) :
    List (Command × List UInt8) → δ × HostFiles →
      Option (List (Outcome Stop Unit × List Output) × δ × HostFiles)
  | [], s => some ([], s)
  | x :: xs, s =>
    ((x.1.print x.2).run? (PartialHandler.printing (byteHandler d a))
        (⟨s.1, s.2, []⟩, [])).bind fun r =>
      (printCommands d a xs (r.2.1.device, r.2.1.files)).map
        (Prod.map ((r.1, r.2.2.filter Output.isResult) :: ·) id)

/-- Partial transfers make no difference. -/
theorem printCommands_settles (schedule : Schedule) (xs : List (Command × List UInt8))
    (s : Transfers) (files : HostFiles) :
    Settles (Prod.map Transfers.file id)
      (fun fuel => printCommands (scheduleHandler schedule fuel) Transfers.access xs (s, files))
      (printCommands fileHandler ImageFile.access xs (s.file, files)) := by
  induction xs generalizing s files with
  | nil => exact settles_const [] (s, files)
  | cons x xs ih =>
    refine (run?_settles (settles_printing (byteHandler_settles schedule)) (x.1.print x.2)
      (⟨s, files, []⟩, [])).bind fun o m => ?_
    exact (ih m.1.device m.1.files).map ((o, m.2.filter Output.isResult) :: ·) (u := id) (v := id)
      fun _ => rfl

/-- **One command** on a file that represents the image, when it never lacks an answer. -/
theorem run?_print {w : World} {f : ImageFile} {c : Command} (data : List UInt8)
    (hc : ¬ c.NamesImage w.files) (hf : Represents f.bytes w.store)
    {o : Outcome Stop Unit} {w' : World} {out : List Output}
    (hexec : (c.print data).exec w = ⟨o, w', out⟩) (hanswered : o ≠ .halted .outside) :
    ∃ m, (c.print data).run? (PartialHandler.printing (byteHandler fileHandler ImageFile.access))
        (⟨f, w.files, []⟩, []) = some (o, m, out) ∧
      Represents m.device.bytes w'.store ∧ m.files = w'.files := by
  have hstart : SameMachine w.files w.start ⟨f, w.files, []⟩ := ⟨hf, rfl, rfl, rfl⟩
  rcases hrun : (c.print data).run hostHandler.printing (w.start, []) with ⟨o₁, m₁, out₁⟩
  rw [Printing.exec, hrun] at hexec
  obtain ⟨rfl, rfl, rfl⟩ : o₁ = o ∧ ⟨m₁.store, m₁.files⟩ = w' ∧ out₁ = out := by
    simpa using hexec
  have hend : o₁.EndsIn (· ≠ Stop.outside) := by
    cases o₁ with
    | done a => exact trivial
    | halted e => exact fun he => hanswered (congrArg Outcome.halted he)
  have hcareful : Careful defaultFsInfo w.files (c.print data).silent := by
    rw [c.silent_print data]
    exact Command.careful_default hc
  obtain ⟨⟨m, _⟩, hm, hsame, rfl⟩ := refines_hostHandler.printing.run
    (Prog.obeys_of_silent hcareful) (t := (⟨f, w.files, []⟩, [])) ⟨hstart, rfl⟩ hrun hend
  exact ⟨m, hm, hsame.image, hsame.files⟩

/-! ### Sessions -/

/-- A world that shows a session has its host files. -/
theorem World.Shows.files_eq {w : World} {v : Session} (hw : w.Shows v) : w.files = v.files := by
  obtain ⟨_, _, _, rfl⟩ := hw
  rfl

/-- A command that returns on the records returns on the file, and says the same. -/
theorem run?_answer {w : World} {f : ImageFile} {x : Command × List UInt8}
    (hpath : ¬ x.1.NamesImage w.files) (hf : Represents f.bytes w.store) {said : List Output}
    (hx : (client.answer w x).1 = (.done (), said)) :
    ∃ m out, (x.1.print x.2).run?
        (PartialHandler.printing (byteHandler fileHandler ImageFile.access))
        (⟨f, w.files, []⟩, []) = some (.done (), m, out) ∧ out.filter Output.isResult = said ∧
      Represents m.device.bytes (client.answer w x).2.store ∧
      m.files = (client.answer w x).2.files := by
  obtain ⟨hout, hsaid⟩ := Prod.mk.inj hx
  have hexec : (x.1.print x.2).exec w =
      ⟨.done (), (client.answer w x).2, ((x.1.print x.2).exec w).output⟩ := by
    rw [← hout]
    rfl
  obtain ⟨m, hm, himage, hfiles⟩ := run?_print x.2 hpath hf hexec (by rintro ⟨⟩)
  exact ⟨m, _, hm, hsaid, himage, hfiles⟩

/-- What one command says, and a file of the records that it leaves, before other commands. -/
theorem printCommands_cons {w : World} {f : ImageFile} {x : Command × List UInt8}
    (hpath : ¬ x.1.NamesImage w.files) (hf : Represents f.bytes w.store) {said : List Output}
    (hx : (client.answer w x).1 = (.done (), said)) (xs : List (Command × List UInt8)) :
    ∃ f' : ImageFile, Represents f'.bytes (client.answer w x).2.store ∧
      printCommands fileHandler ImageFile.access (x :: xs) (f, w.files) =
        (printCommands fileHandler ImageFile.access xs (f', (client.answer w x).2.files)).map
          (Prod.map ((.done (), said) :: ·) id) := by
  obtain ⟨m, out, hm, hsaid, himage, hfiles⟩ := run?_answer hpath hf hx
  refine ⟨m.device, himage, ?_⟩
  rw [printCommands, hm, Option.bind_some, ← hfiles, hsaid]

/-- **A session** on whole transfers. -/
theorem World.Shows.printCommands {w : World} {v : Session} (hw : w.Shows v) {f : ImageFile}
    (hf : Represents f.bytes w.store) {xs : List (Command × List UInt8)}
    (hxs : Session.service.Allows Session.Allowed xs v) :
    ∃ (f' : ImageFile) (w' : World), Represents f'.bytes w'.store ∧
      w'.Shows (Session.service.run xs v).2 ∧
      MiniExt.printCommands fileHandler ImageFile.access xs (f, w.files) =
        some ((Session.service.run xs v).1.map (fun said => (.done (), said)), f',
          (Session.service.run xs v).2.files) := by
  induction xs generalizing w v f with
  | nil => exact ⟨f, w, hf, hw, by rw [hw.files_eq]; rfl⟩
  | cons x xs ih =>
    obtain ⟨hx, hxs⟩ := hxs
    obtain ⟨hend, hw'⟩ := client_implements.step hw hx
    have hpath : ¬ x.1.NamesImage w.files := by
      rw [hw.files_eq]
      exact hx.2.1
    obtain ⟨f₁, hf₁, hcons⟩ := printCommands_cons hpath hf hend xs
    obtain ⟨f', w', hf', hshows, hrest⟩ := ih hw' hf₁ hxs
    refine ⟨f', w', hf', hshows, ?_⟩
    rw [hcons, hrest]
    rfl

/-- `init` before a session. -/
theorem printCommands_init {w : World} {f : ImageFile} (hf : Represents f.bytes w.store)
    (data : List UInt8) {xs : List (Command × List UInt8)}
    (hxs : Session.service.Allows Session.Allowed xs (.fresh w.files)) :
    ∃ (f' : ImageFile) (w' : World), Represents f'.bytes w'.store ∧
      w'.Shows (Session.service.run xs (.fresh w.files)).2 ∧
      printCommands fileHandler ImageFile.access ((.init, data) :: xs) (f, w.files) =
        some ((.done (), [.stdout "Initializing fs\n" []]) ::
          (Session.service.run xs (.fresh w.files)).1.map (fun said => (.done (), said)), f',
          (Session.service.run xs (.fresh w.files)).2.files) := by
  obtain ⟨hend, hw⟩ := (leaves_init w data).answer
  obtain ⟨f₁, hf₁, hcons⟩ := printCommands_cons id hf hend xs
  obtain ⟨f', w', hf', hshows, hrest⟩ := hw.printCommands hf₁ hxs
  refine ⟨f', w', hf', hshows, ?_⟩
  rw [hcons, hrest]
  rfl

/-- What comes of whole transfers comes of transfers of any sizes, with enough turns. -/
theorem printCommands_scheduled (schedule : Schedule) {s : Transfers} {files files' : HostFiles}
    {xs : List (Command × List UInt8)} {ends : List (Outcome Stop Unit × List Output)}
    {f' : ImageFile}
    (h : printCommands fileHandler ImageFile.access xs (s.file, files) = some (ends, f', files')) :
    ∃ (s' : Transfers) (n : Nat), s'.file = f' ∧ ∀ fuel, n ≤ fuel →
      printCommands (scheduleHandler schedule fuel) Transfers.access xs (s, files) =
        some (ends, s', files') := by
  have hsettles := printCommands_settles schedule xs s files
  rw [h] at hsettles
  obtain ⟨⟨s', files₁⟩, herase, -, n, hn⟩ := hsettles
  obtain ⟨rfl, rfl⟩ : s'.file = f' ∧ files₁ = files' := Prod.mk.inj herase
  exact ⟨s', n, rfl, hn⟩

/-- **Every session**, on a file of any content before `init` and with transfers of any sizes:
    with enough turns of the transfer loops the client says what the session says, and the file
    then holds the records of an image that shows what the session has come to. -/
theorem sessions_on_bytes (schedule : Schedule) (s : Transfers) (files : HostFiles)
    (data : List UInt8) {xs : List (Command × List UInt8)}
    (hxs : Session.service.Allows Session.Allowed xs (.fresh files)) :
    ∃ (s' : Transfers) (n : Nat) (w' : World), (∀ fuel, n ≤ fuel →
        printCommands (scheduleHandler schedule fuel) Transfers.access ((.init, data) :: xs)
            (s, files) =
          some ((.done (), [.stdout "Initializing fs\n" []]) ::
            (Session.service.run xs (.fresh files)).1.map (fun said => (.done (), said)), s',
            (Session.service.run xs (.fresh files)).2.files)) ∧
      Represents s'.file.bytes w'.store ∧ w'.Shows (Session.service.run xs (.fresh files)).2 := by
  obtain ⟨f', w', hf', hshows, hwhole⟩ := printCommands_init (w := ⟨.blank, files⟩)
    (represents_blank s.file.bytes) data hxs
  obtain ⟨s', n, rfl, hn⟩ := printCommands_scheduled schedule hwhole
  exact ⟨s', n, w', hn, hf', hshows⟩

/-- One byte at a time, over a file that held something else. -/
theorem sessions_on_bytes_example :
    ∃ (s' : Transfers) (n : Nat) (w' : World), (∀ fuel, n ≤ fuel →
        printCommands (scheduleHandler (fun _ => 0) fuel) Transfers.access
            ((.init, []) :: exampleSession) (⟨⟨[1, 2, 3], 0⟩, 0⟩, .onlyImage) =
          some ((.done (), [.stdout "Initializing fs\n" []]) ::
            (Session.service.run exampleSession (.fresh .onlyImage)).1.map
              (fun said => (.done (), said)), s',
            (Session.service.run exampleSession (.fresh .onlyImage)).2.files)) ∧
      Represents s'.file.bytes w'.store ∧
      w'.Shows (Session.service.run exampleSession (.fresh .onlyImage)).2 :=
  sessions_on_bytes (fun _ => 0) ⟨⟨[1, 2, 3], 0⟩, 0⟩ .onlyImage [] (by decide)

end MiniExt
