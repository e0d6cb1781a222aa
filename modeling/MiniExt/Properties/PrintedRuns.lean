import MiniExt.Ideal.ByteSessions
import MiniExt.Interface.LinePrinting

namespace MiniExt

open Lib

/-!
# What the client prints, on the bytes of an image

The loop of the client prints the same on a file as on the records that the file holds, and ends
the same way, whatever it is given to read and however the host splits its transfers.

* `Runner.Follows` — one runner does what another one does;
* `Runner.Follows.clientLoop` — then the loop does so as well;
* `clientLoop_settles` — partial transfers make no difference to the loop;
* `printed_refines` — the loop on bytes is the loop on records.
-/

variable {σ τ : Type}

/-! ### One runner after another -/

/-- From related states every command that is among those given comes back on both, ends the same,
    prints the same and leaves related states. -/
def Runner.Follows (run : Runner σ) (run' : Runner τ) (given : Command → Prop)
    (R : σ → τ → Prop) : Prop :=
  ∀ s t, R s t → ∀ c data, given c → ∃ r s' t', run s c data = some (r, s') ∧
    run' t c data = some (r, t') ∧ R s' t'

/-- **The loop**, as long as the lines it reads run such commands. -/
theorem Runner.Follows.clientLoop {run : Runner σ} {run' : Runner τ} {given : Command → Prop}
    {R : σ → τ → Prop} (h : run.Follows run' given R) {turns : Nat} (stack : Nat → List UInt8)
    {buffer stdin : List UInt8}
    (hlines : ∀ line ∈ readLines turns buffer stdin, ∀ c, dispatch line = .run c → given c)
    {s : σ} {t : τ} (hR : R s t) :
    ∃ r s' t', Printing.clientLoop run turns stack buffer stdin s = some (r, s') ∧
      Printing.clientLoop run' turns stack buffer stdin t = some (r, t') ∧ R s' t' := by
  induction turns generalizing stack buffer stdin s t with
  | zero => exact ⟨_, s, t, rfl, rfl, hR⟩
  | succ turns ih =>
    simp only [Printing.clientLoop]
    rcases hread : readCommandFromStdin buffer stdin with ⟨buffer', stdin'⟩ | e
    · rw [readLines, hread] at hlines
      obtain ⟨hline, hrest⟩ := List.forall_mem_cons.mp hlines
      rw [← Printing.snd_dispatch] at hline
      dsimp only
      generalize Printing.dispatch (bufferLine buffer') = answer at hline
      obtain ⟨said, action⟩ := answer
      -- one more turn, and what it prints before
      have hnext : ∀ (before : List Output) {s t}, R s t → ∃ r s' t',
          (Printing.clientLoop run turns (stack ∘ Nat.succ) buffer' stdin' s).map
              (Prod.map (Prod.map (before ++ ·) id) id) = some (r, s') ∧
            (Printing.clientLoop run' turns (stack ∘ Nat.succ) buffer' stdin' t).map
              (Prod.map (Prod.map (before ++ ·) id) id) = some (r, t') ∧ R s' t' := by
        intro before s t hR
        obtain ⟨r, s', t', hs, ht, hR'⟩ := ih (stack ∘ Nat.succ) hrest hR
        refine ⟨(before ++ r.1, r.2), s', t', ?_, ?_, hR'⟩
        · rw [hs]
          rfl
        · rw [ht]
          rfl
      cases action with
      | help => exact hnext said hR
      | rejected => exact hnext said hR
      | quit => exact ⟨_, s, t, rfl, rfl, hR⟩
      | memoryError => exact ⟨_, s, t, rfl, rfl, hR⟩
      | run c =>
        obtain ⟨⟨o, out⟩, s', t', hs, ht, hR'⟩ := h s t hR c (stack 0) (hline c rfl)
        dsimp only
        rw [hs, ht, Option.bind_some, Option.bind_some]
        dsimp only
        rcases clientEnd o with _ | e
        · exact hnext (said ++ out) hR'
        · exact ⟨_, s', t', rfl, rfl, hR'⟩
    · exact ⟨_, s, t, rfl, rfl, hR⟩

/-! ### Partial transfers -/

/-- Partial transfers make no difference to a command. -/
theorem byteRunner_settles (schedule : Schedule) (c : Command) (data : List UInt8)
    (s : Transfers × HostFiles) :
    Settles (Prod.map Transfers.file id)
      (fun fuel => byteRunner (scheduleHandler schedule fuel) Transfers.access s c data)
      (byteRunner fileHandler ImageFile.access (Prod.map Transfers.file id s) c data) := by
  have hrun := run?_settles (settles_printing (byteHandler_settles schedule)) (c.print data)
    (⟨s.1, s.2, []⟩, [])
  simp only [byteRunner, Option.map_eq_bind]
  exact hrun.bind fun o m => settles_const (o, m.2) (m.1.device, m.1.files)

/-- **Partial transfers** make no difference to the loop. -/
theorem clientLoop_settles (schedule : Schedule) (turns : Nat) (stack : Nat → List UInt8)
    (buffer stdin : List UInt8) (s : Transfers × HostFiles) :
    Settles (Prod.map Transfers.file id)
      (fun fuel => Printing.clientLoop (byteRunner (scheduleHandler schedule fuel) Transfers.access)
        turns stack buffer stdin s)
      (Printing.clientLoop (byteRunner fileHandler ImageFile.access) turns stack buffer stdin
        (Prod.map Transfers.file id s)) := by
  induction turns generalizing stack buffer stdin s with
  | zero => exact settles_const ([], none) s
  | succ turns ih =>
    simp only [Printing.clientLoop]
    rcases readCommandFromStdin buffer stdin with ⟨buffer', stdin'⟩ | e
    · dsimp only
      generalize Printing.dispatch (bufferLine buffer') = answer
      obtain ⟨said, action⟩ := answer
      have hnext := fun (before : List Output) s => (ih (stack ∘ Nat.succ) buffer' stdin' s).map
        (Prod.map (before ++ ·) id) (u := id) (v := id) fun _ => rfl
      cases action with
      | help => exact hnext said s
      | rejected => exact hnext said s
      | quit => exact settles_const (said, some ClientEnd.returned) s
      | memoryError => exact settles_const (said, some ClientEnd.memoryError) s
      | run c =>
        refine (byteRunner_settles schedule c (stack 0) s).bind fun r s' => ?_
        dsimp only
        rcases clientEnd r.1 with _ | e
        · exact hnext (said ++ r.2) s'
        · exact settles_const (said ++ r.2, some e) s'
    · exact settles_const ([], some ClientEnd.memoryError) s

/-! ### Bytes and records -/

/-- The file holds the records of a world that runs reach, the host files are the same, and the
    image is at the paths of `F`. -/
structure World.HeldBy (F : HostFiles) (w : World) (s : ImageFile × HostFiles) : Prop where
  reachable : Reachable w
  image : Represents s.1.bytes w.store
  files : s.2 = w.files
  isImage : w.files.isImage = F.isImage

/-- **Commands on bytes** do what they do on the records, as long as they do not name the image. -/
theorem recordRunner_follows (F : HostFiles) :
    recordRunner.Follows (byteRunner fileHandler ImageFile.access) (fun c => ¬ c.NamesImage F)
      (World.HeldBy F) := by
  rintro w ⟨f, files⟩ ⟨hw, hf, rfl, hpaths⟩ c data hc
  rw [← Command.namesImage_congr hpaths] at hc
  have honto : ¬ c.OntoImage w.files := fun honto => hc honto.namesImage
  have hanswered := hw.answered honto
  -- without its prints the command is the one that always has an answer
  have hsilent := Printing.exec_silent (c.print data) w
  rw [c.silent_print data] at hsilent
  rw [hsilent] at hanswered
  obtain ⟨m, hm, himage, hfiles⟩ := run?_print data hc hf rfl hanswered
  have hworld : ((c.print data).exec w).world = w.step c := by
    rw [World.step, hsilent]
  refine ⟨_, _, (m.device, m.files), rfl, ?_, ?_, himage, hfiles, ?_⟩
  · rw [byteRunner, hm]
    rfl
  · show Reachable ((c.print data).exec w).world
    rw [hworld]
    exact hw.step honto
  · show ((c.print data).exec w).world.files.isImage = _
    rw [hworld, hw.isImage_step, hpaths]

/-- **Everything that is printed**, and the end of the client: from a file that holds the records
    of a world that runs reach, with transfers of any sizes and enough turns of their loops,
    whatever the standard input is, as long as no line of it names the image as a host file, the
    client prints and ends as it does on the records, and the file then holds the records that it
    leaves there. -/
theorem printed_refines (schedule : Schedule) {s : Transfers} {w : World} (hw : Reachable w)
    (hs : Represents s.file.bytes w.store) {turns : Nat} (stack : Nat → List UInt8)
    {buffer stdin : List UInt8} (hspares : SparesImage w.files turns buffer stdin) :
    ∃ r w' s' n, Printing.clientLoop recordRunner turns stack buffer stdin w = some (r, w') ∧
      (∀ fuel, n ≤ fuel →
        Printing.clientLoop (byteRunner (scheduleHandler schedule fuel) Transfers.access) turns
          stack buffer stdin (s, w.files) = some (r, s', w'.files)) ∧
      Represents s'.file.bytes w'.store ∧ Reachable w' := by
  have hheld : w.HeldBy w.files (s.file, w.files) := ⟨hw, hs, rfl, rfl⟩
  obtain ⟨r, w', ⟨f', files'⟩, hrecords, hbytes, hw', hf', hfiles, -⟩ :=
    (recordRunner_follows w.files).clientLoop stack hspares.runs hheld
  have hsettles := clientLoop_settles schedule turns stack buffer stdin (s, w.files)
  rw [show Prod.map Transfers.file id (s, w.files) = (s.file, w.files) from rfl, hbytes] at hsettles
  obtain ⟨⟨s', files₁⟩, herase, -, n, hn⟩ := hsettles
  obtain ⟨rfl, rfl⟩ : s'.file = f' ∧ files₁ = files' := Prod.mk.inj herase
  obtain rfl : files₁ = w'.files := hfiles
  exact ⟨r, w', s', n, hrecords, hn, hf', hw'⟩

/-- `ls /` and `quit`, one byte of the file at a time. -/
theorem printed_refines_new : ∃ s : Transfers, ∃ r w' s' n,
    Printing.clientLoop recordRunner 2 (fun _ => []) (List.replicate 256 0)
        [108, 115, 32, 47, 10, 113, 117, 105, 116, 10]
        ((⟨.blank, .onlyImage⟩ : World).step .init) = some (r, w') ∧
      (∀ fuel, n ≤ fuel →
        Printing.clientLoop (byteRunner (scheduleHandler (fun _ => 0) fuel) Transfers.access) 2
          (fun _ => []) (List.replicate 256 0) [108, 115, 32, 47, 10, 113, 117, 105, 116, 10]
          (s, ((⟨.blank, .onlyImage⟩ : World).step .init).files) = some (r, s', w'.files)) ∧
      Represents s'.file.bytes w'.store ∧ Reachable w' := by
  obtain ⟨bw, hbw⟩ := (runsAlike_init (F := .onlyImage) ⟨[], 0⟩ (List.forall_mem_nil _)).holds
  have hs : Represents (⟨⟨bw.image, 0⟩, 0⟩ : Transfers).file.bytes
      ((⟨.blank, .onlyImage⟩ : World).step .init).store := hbw.image
  exact ⟨_, printed_refines (fun _ => 0) (.init _) hs _ (by decide +kernel)⟩

end MiniExt
