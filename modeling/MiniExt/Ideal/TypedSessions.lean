import MiniExt.Properties.CommandLines
import MiniExt.Properties.Input
import MiniExt.Properties.PrintedRuns

namespace MiniExt

open Lib

/-!
# Ideal — typed sessions

The user types the commands of a session, each on a line of its own, and `quit`.  The client reads
its lines back as these commands and prints what the session says; and as all that it keeps is in
the file, the session goes on when the client is started again.

* `typed` — what the user types;
* `clientLoop_line`, `clientLoop_quit` — one turn on such a line;
* `Session.ShownBy` — the file shows the user a session;
* `Session.ShownBy.typed` — what one process of the client prints;
* `typed_sessions` — and processes one after the other, with transfers of any sizes.
-/

/-! ### Lines -/

/-- What the user types: commands, `quit`, and what is not read any more. -/
def typed (rest : List UInt8) : List Command → List UInt8
  | [] => CommandWord.quit.text ++ newline :: rest
  | c :: cs => c.line ++ newline :: typed rest cs

/-- Commands, and what is on the stack in the turn of each. -/
def withStack : List Command → (Nat → List UInt8) → List (Command × List UInt8)
  | [], _ => []
  | c :: cs, stack => (c, stack 0) :: withStack cs (stack ∘ Nat.succ)

section Turns

variable {σ : Type} {buffer : List UInt8} (hbuffer : buffer.length = commandBufferLength)
  (turns : Nat) (stack : Nat → List UInt8) (stdin : List UInt8)

include hbuffer

/-- **The line of a command**: it is run, and when it returns the loop goes on behind the line. -/
theorem clientLoop_line {c : Command} (hc : c.Typeable) (hline : c.OneLine) :
    ∃ buffer' : List UInt8, buffer'.length = commandBufferLength ∧
      ∀ {σ : Type} {run : Runner σ} {s s' : σ} {out : List Output},
        run s c (stack 0) = some ((.done (), out), s') →
        Printing.clientLoop run (turns + 1) stack buffer (c.line ++ newline :: stdin) s =
          (Printing.clientLoop run turns (stack ∘ Nat.succ) buffer' stdin s').map
            (Prod.map (Prod.map (out ++ ·) id) id) := by
  obtain ⟨buffer', hread, hlength, hbytes⟩ :=
    @readCommand_fits buffer c.line stdin hbuffer hline.1 hline.2 hc.zero_not_mem_line
  have hrun : MiniExt.dispatch (bufferLine buffer') = .run c := by
    rw [show bufferLine buffer' = hc.cString from CString.ext hbytes]
    exact dispatch_line hc
  refine ⟨buffer', hlength, ?_⟩
  intro σ run s s' out hcommand
  rw [Printing.clientLoop, hread]
  dsimp only
  rw [Printing.dispatch_of_run hrun]
  dsimp only [Printing.runs]
  rw [hcommand]
  rfl

/-- **`quit`** ends the loop. -/
theorem clientLoop_quit (run : Runner σ) (s : σ) :
    Printing.clientLoop run (turns + 1) stack buffer (CommandWord.quit.text ++ newline :: stdin) s =
      some (([], some .returned), s) := by
  obtain ⟨buffer', hread, -, hbytes⟩ := @readCommand_fits buffer CommandWord.quit.text stdin hbuffer
    (by decide) (by decide) (by decide)
  have hquit : bufferLine buffer' = ⟨CommandWord.quit.text, by decide⟩ := CString.ext hbytes
  rw [Printing.clientLoop, hread]
  dsimp only
  rw [hquit]
  rfl

end Turns

/-! ### One process -/

/-- The file holds the records of a world that shows the session. -/
def Session.ShownBy (v : Session) (s : ImageFile × HostFiles) : Prop :=
  ∃ w : World, Represents s.1.bytes w.store ∧ w.Shows v ∧ s.2 = w.files

/-- A command that returns on the records returns on the file, which then shows what the records
    show. -/
theorem byteRunner_answer {w : World} {f : ImageFile} (hf : Represents f.bytes w.store)
    {x : Command × List UInt8} (hpath : ¬ x.1.NamesImage w.files) {said : List Output}
    (hx : (client.answer w x).1 = (.done (), said)) {v : Session}
    (hv : (client.answer w x).2.Shows v) :
    ∃ out s', byteRunner fileHandler ImageFile.access (f, w.files) x.1 x.2 =
        some ((.done (), out), s') ∧ out.filter Output.isResult = said ∧ v.ShownBy s' := by
  obtain ⟨m, out, hm, hsaid, himage, hfiles⟩ := run?_answer hpath hf hx
  refine ⟨out, (m.device, m.files), ?_, hsaid, _, himage, hv, hfiles⟩
  rw [byteRunner, hm]
  rfl

/-- **One command** of a session. -/
theorem Session.ShownBy.answer {v : Session} {s : ImageFile × HostFiles} (hs : v.ShownBy s)
    {x : Command × List UInt8} (hx : v.Allowed x) :
    ∃ out s', byteRunner fileHandler ImageFile.access s x.1 x.2 = some ((.done (), out), s') ∧
      out.filter Output.isResult = (Session.service.answer v x).1 ∧
      (Session.service.answer v x).2.ShownBy s' := by
  obtain ⟨f, files⟩ := s
  obtain ⟨w, hf, hw, rfl⟩ := hs
  obtain ⟨hsaid, hw'⟩ := client_implements.step hw hx
  have hpath : ¬ x.1.NamesImage w.files := by
    rw [hw.files_eq]
    exact hx.2.1
  exact byteRunner_answer hf hpath hsaid hw'

/-- **`init`**, on a file of any content. -/
theorem shownBy_init (f : ImageFile) (files : HostFiles) (data : List UInt8) :
    ∃ out s', byteRunner fileHandler ImageFile.access (f, files) .init data =
        some ((.done (), out), s') ∧
      out.filter Output.isResult = [.stdout "Initializing fs\n" []] ∧
      (Session.fresh files).ShownBy s' := by
  obtain ⟨hsaid, hw⟩ := (leaves_init ⟨.blank, files⟩ data).answer
  exact byteRunner_answer (w := ⟨.blank, files⟩) (represents_blank f.bytes) id hsaid hw

/-- A process of the client: what is in its buffer and on its stack, the commands that the user
    types, and what else is typed. -/
structure ClientProcess where
  buffer : List UInt8
  stack : Nat → List UInt8
  commands : List Command
  rest : List UInt8

namespace ClientProcess

/-- The standard input of the process. -/
def stdin (p : ClientProcess) : List UInt8 := typed p.rest p.commands

/-- Its part of the session. -/
def session (p : ClientProcess) : List (Command × List UInt8) := withStack p.commands p.stack

/-- The buffer is the one of the client, and every command has a line that fits it. -/
structure Typeable (p : ClientProcess) : Prop where
  buffer : p.buffer.length = commandBufferLength
  lines : ∀ c ∈ p.commands, c.Typeable ∧ c.OneLine

/-- The client prints `said`, returns and leaves a file that shows session `v`. -/
def Leaves (p : ClientProcess) (turns : Nat) (s : ImageFile × HostFiles) (said : List Output)
    (v : Session) : Prop :=
  ∃ out s', Printing.clientLoop (byteRunner fileHandler ImageFile.access) turns p.stack p.buffer
      p.stdin s = some ((out, some .returned), s') ∧
    out.filter Output.isResult = said ∧ v.ShownBy s'

section Leaves

variable {buffer rest : List UInt8} {stack : Nat → List UInt8} {c : Command} {cs : List Command}
  {turns : Nat} {s s' : ImageFile × HostFiles} {v : Session}

/-- The first command, and the process that goes on behind it. -/
theorem leaves_cons (hp : Typeable ⟨buffer, stack, c :: cs, rest⟩) {out said : List Output}
    (hc : byteRunner fileHandler ImageFile.access s c (stack 0) = some ((.done (), out), s'))
    (hrest : ∀ buffer', Typeable ⟨buffer', stack ∘ Nat.succ, cs, rest⟩ →
      Leaves ⟨buffer', stack ∘ Nat.succ, cs, rest⟩ turns s' said v) :
    Leaves ⟨buffer, stack, c :: cs, rest⟩ (turns + 1) s (out.filter Output.isResult ++ said) v := by
  obtain ⟨⟨htypeable, hline⟩, hlines⟩ := List.forall_mem_cons.mp hp.lines
  obtain ⟨buffer', hbuffer', hturn⟩ :=
    clientLoop_line hp.buffer turns stack (typed rest cs) htypeable hline
  obtain ⟨out', s'', hloop, hsaid, hshown⟩ := hrest buffer' ⟨hbuffer', hlines⟩
  refine ⟨out ++ out', s'', ?_, ?_, hshown⟩
  · exact (hturn hc).trans (congrArg (Option.map _) hloop)
  · rw [List.filter_append, hsaid]

/-- **One process** on a file that shows a session: it says what the session says. -/
theorem leaves (hp : Typeable ⟨buffer, stack, cs, rest⟩) (hturns : cs.length < turns)
    (hs : v.ShownBy s)
    (hallowed : Session.service.Allows Session.Allowed (withStack cs stack) v) :
    Leaves ⟨buffer, stack, cs, rest⟩ turns s
      (Session.service.run (withStack cs stack) v).1.flatten
      (Session.service.run (withStack cs stack) v).2 := by
  -- by induction on the commands: each turn reads one line
  induction cs generalizing buffer stack turns v s with
  | nil =>
    obtain ⟨turns, rfl⟩ := Nat.exists_eq_succ_of_ne_zero (Nat.ne_zero_of_lt hturns)
    exact ⟨[], s, clientLoop_quit hp.buffer turns stack rest _ s, rfl, hs⟩
  | cons c cs ih =>
    obtain ⟨turns, rfl⟩ := Nat.exists_eq_succ_of_ne_zero (Nat.ne_zero_of_lt hturns)
    obtain ⟨hc, hcs⟩ := hallowed
    obtain ⟨out, s', hrun, hsaid, hs'⟩ := hs.answer hc
    have hall := leaves_cons hp hrun fun buffer' hp' =>
      ih hp' (Nat.lt_of_succ_lt_succ hturns) hs' hcs
    rw [hsaid] at hall
    exact hall

/-- The first process of all starts with `init`. -/
theorem leaves_init (hp : Typeable ⟨buffer, stack, .init :: cs, rest⟩)
    (hturns : (Command.init :: cs).length < turns) (f : ImageFile) (files : HostFiles)
    (hallowed : Session.service.Allows Session.Allowed (withStack (.init :: cs) stack)
      (.fresh files)) :
    Leaves ⟨buffer, stack, .init :: cs, rest⟩ turns (f, files)
      (Session.service.run (withStack (.init :: cs) stack) (.fresh files)).1.flatten
      (Session.service.run (withStack (.init :: cs) stack) (.fresh files)).2 := by
  obtain ⟨turns, rfl⟩ := Nat.exists_eq_succ_of_ne_zero (Nat.ne_zero_of_lt hturns)
  obtain ⟨out, s', hrun, hsaid, hs'⟩ := shownBy_init f files (stack 0)
  have hall := leaves_cons hp hrun fun buffer' hp' =>
    leaves hp' (Nat.lt_of_succ_lt_succ hturns) hs' hallowed.2
  rw [hsaid] at hall
  exact hall

end Leaves

end ClientProcess

/-! ### Processes one after the other -/

/-- The client is started, and started again when it has ended. -/
def runClients {σ : Type} (run : Runner σ) (turns : Nat) :
    List ClientProcess → σ → Option (List Printed.Client × σ)
  | [], s => some ([], s)
  | p :: ps, s =>
    (Printing.clientLoop run turns p.stack p.buffer p.stdin s).bind fun r =>
      (runClients run turns ps r.2).map (Prod.map (r.1 :: ·) id)

/-- What the processes print. -/
def printedBy (ends : List Printed.Client) : List Output :=
  (ends.flatMap Prod.fst).filter Output.isResult

/-- Partial transfers make no difference to processes. -/
theorem runClients_settles (schedule : Schedule) (turns : Nat) (ps : List ClientProcess)
    (s : Transfers × HostFiles) :
    Settles (Prod.map Transfers.file id)
      (fun fuel => runClients (byteRunner (scheduleHandler schedule fuel) Transfers.access) turns ps
        s)
      (runClients (byteRunner fileHandler ImageFile.access) turns ps
        (Prod.map Transfers.file id s)) := by
  induction ps generalizing s with
  | nil => exact settles_const [] s
  | cons p ps ih =>
    refine (clientLoop_settles schedule turns p.stack p.buffer p.stdin s).bind fun r s' => ?_
    exact (ih s').map (r :: ·) (u := id) (v := id) fun _ => rfl

/-- All processes return, have printed `said`, and leave a file that shows session `v`. -/
def ProcessesLeave (turns : Nat) (ps : List ClientProcess) (s : ImageFile × HostFiles)
    (said : List Output) (v : Session) : Prop :=
  ∃ ends s', runClients (byteRunner fileHandler ImageFile.access) turns ps s = some (ends, s') ∧
    (∀ e ∈ ends, e.2 = some .returned) ∧ printedBy ends = said ∧ v.ShownBy s'

/-- The first process, and those that go on behind it. -/
theorem ClientProcess.Leaves.cons {p : ClientProcess} {ps : List ClientProcess} {turns : Nat}
    {s : ImageFile × HostFiles} {said more : List Output} {v v' : Session}
    (hp : p.Leaves turns s said v)
    (hps : ∀ s', v.ShownBy s' → ProcessesLeave turns ps s' more v') :
    ProcessesLeave turns (p :: ps) s (said ++ more) v' := by
  obtain ⟨out, s', hloop, hsaid, hs'⟩ := hp
  obtain ⟨ends, s'', hrun, hends, hmore, hshown⟩ := hps s' hs'
  refine ⟨(out, some .returned) :: ends, s'', ?_, List.forall_mem_cons.mpr ⟨rfl, hends⟩, ?_, hshown⟩
  · rw [runClients, hloop, Option.bind_some, hrun]
    rfl
  · rw [printedBy, List.flatMap_cons, List.filter_append, hsaid]
    exact congrArg _ hmore

/-- **Processes** on a file that shows a session. -/
theorem Session.ShownBy.processes {turns : Nat} {ps : List ClientProcess}
    (hps : ∀ p ∈ ps, p.Typeable ∧ p.commands.length < turns) {v : Session}
    {s : ImageFile × HostFiles} (hs : v.ShownBy s)
    (hallowed : Session.service.Allows Session.Allowed (ps.flatMap ClientProcess.session) v) :
    ProcessesLeave turns ps s
      (Session.service.run (ps.flatMap ClientProcess.session) v).1.flatten
      (Session.service.run (ps.flatMap ClientProcess.session) v).2 := by
  -- by induction on the processes: each starts where the last one has ended
  induction ps generalizing v s with
  | nil => exact ⟨[], s, rfl, List.forall_mem_nil _, rfl, hs⟩
  | cons p ps ih =>
    obtain ⟨⟨hp, hturns⟩, hps⟩ := List.forall_mem_cons.mp hps
    rw [List.flatMap_cons] at hallowed ⊢
    obtain ⟨hfirst, hothers⟩ := Service.allows_append.mp hallowed
    rw [Service.run_append, List.flatten_append]
    exact (ClientProcess.leaves hp hturns hs hfirst).cons fun s' hs' => ih hps hs' hothers

/-- **Typed sessions.**  On a file of any content and with transfers of any sizes the client is
    started any number of times, and the commands of a session are typed, `init` first and `quit`
    at the end of each process: with enough turns of the transfer loops every process returns, all
    of them say what the session says, and the file then shows what the session has come to. -/
theorem typed_sessions (schedule : Schedule) (s : Transfers) (files : HostFiles) {turns : Nat}
    {p : ClientProcess} {ps : List ClientProcess} {cs : List Command}
    (hps : ∀ q ∈ p :: ps, q.Typeable ∧ q.commands.length < turns)
    (hinit : p.commands = .init :: cs)
    (hallowed : Session.service.Allows Session.Allowed
      ((p :: ps).flatMap ClientProcess.session) (.fresh files)) :
    ∃ ends s' files' n, (∀ fuel, n ≤ fuel →
        runClients (byteRunner (scheduleHandler schedule fuel) Transfers.access) turns (p :: ps)
          (s, files) = some (ends, s', files')) ∧
      (∀ e ∈ ends, e.2 = some .returned) ∧
      printedBy ends = (Session.service.run ((p :: ps).flatMap ClientProcess.session)
        (.fresh files)).1.flatten ∧
      (Session.service.run ((p :: ps).flatMap ClientProcess.session) (.fresh files)).2.ShownBy
        (s'.file, files') := by
  obtain ⟨⟨hp, hturns⟩, hmore⟩ := List.forall_mem_cons.mp hps
  rw [List.flatMap_cons] at hallowed ⊢
  obtain ⟨hfirst, hothers⟩ := Service.allows_append.mp hallowed
  obtain ⟨buffer, stack, commands, rest⟩ := p
  obtain rfl : commands = .init :: cs := hinit
  obtain ⟨ends, ⟨f', files'⟩, hrun, hends, hsaid, hshown⟩ :=
    (ClientProcess.leaves_init hp hturns s.file files hfirst).cons fun s' hs' =>
      hs'.processes hmore hothers
  have hsettles := runClients_settles schedule turns (⟨buffer, stack, .init :: cs, rest⟩ :: ps)
    (s, files)
  rw [show Prod.map Transfers.file id (s, files) = (s.file, files) from rfl, hrun] at hsettles
  obtain ⟨⟨s', files₁⟩, herase, -, n, hn⟩ := hsettles
  obtain ⟨rfl, rfl⟩ : s'.file = f' ∧ files₁ = files' := Prod.mk.inj herase
  refine ⟨ends, s', files₁, n, hn, hends, ?_, ?_⟩
  · rw [Service.run_append, List.flatten_append]
    exact hsaid
  · rw [Service.run_append]
    exact hshown

/-- `init`, `mkdir /a`, `touch /a/f`, `open /a/f`, `write 0 hi`. -/
def firstProcess : ClientProcess where
  buffer := List.replicate 256 0
  stack _ := List.replicate 256 0
  commands := [.init, .mkdir (bufferLine [slash, 97]),
    .touch (bufferLine [slash, 97, slash, 102]), .open (bufferLine [slash, 97, slash, 102]),
    .write 0 [104, 105]]
  rest := []

/-- `lseek 0 1`, `read 0 1`, `ls /a`, and a line that is not read. -/
def secondProcess : ClientProcess where
  buffer := List.replicate 256 1
  stack _ := List.replicate 256 0
  commands := [.lseek 0 1, .read 0 1, .ls (bufferLine [slash, 97])]
  rest := [104, 105]

/-- The lines of the first process fit its buffer. -/
theorem typeable_firstProcess : firstProcess.Typeable where
  buffer := List.length_replicate
  lines := by
    have ha : IsArgument (bufferLine [slash, 97]).bytes := by decide
    have hf : IsArgument (bufferLine [slash, 97, slash, 102]).bytes := by decide
    simp only [firstProcess, List.forall_mem_cons]
    exact ⟨⟨trivial, by decide⟩, ⟨ha, by decide⟩, ⟨hf, by decide⟩, ⟨hf, by decide⟩,
      ⟨⟨by decide, by decide⟩, by decide⟩, List.forall_mem_nil _⟩

/-- The lines of the second one fit its buffer. -/
theorem typeable_secondProcess : secondProcess.Typeable where
  buffer := List.length_replicate
  lines := by
    have ha : IsArgument (bufferLine [slash, 97]).bytes := by decide
    simp only [secondProcess, List.forall_mem_cons]
    exact ⟨⟨⟨by decide, by decide⟩, by decide⟩, ⟨⟨by decide, by decide⟩, by decide⟩,
      ⟨ha, by decide⟩, List.forall_mem_nil _⟩

/-- The file and the descriptor are still there when the client is started again. -/
theorem typed_sessions_example : ∃ ends s' files' n, (∀ fuel, n ≤ fuel →
      runClients (byteRunner (scheduleHandler (fun _ => 0) fuel) Transfers.access) 6
        [firstProcess, secondProcess] (⟨⟨[1, 2, 3], 0⟩, 0⟩, .onlyImage) =
          some (ends, s', files')) ∧
    (∀ e ∈ ends, e.2 = some .returned) ∧
    printedBy ends = [.stdout "Initializing fs\n" [], .stdout "opened fd: %d\n" [.number 0],
      .stdout "Total written: %d\n" [.number 2], .stdout "Total readed: %d\n" [.number 1],
      .stdout "Readed: %s\n" [.string [105]], .stdout "%s" [.string [46]], .stdout "\n" [],
      .stdout "%s" [.string [46, 46]], .stdout "\n" [], .stdout "%s" [.string [102]],
      .stdout " -- file" [], .stdout "\n" []] := by
  have hps : ∀ q ∈ [firstProcess, secondProcess], q.Typeable ∧ q.commands.length < 6 :=
    List.forall_mem_cons.mpr ⟨⟨typeable_firstProcess, by decide⟩,
      List.forall_mem_singleton.mpr ⟨typeable_secondProcess, by decide⟩⟩
  obtain ⟨ends, s', files', n, hrun, hends, hsaid, -⟩ :=
    typed_sessions (fun _ => 0) ⟨⟨[1, 2, 3], 0⟩, 0⟩ .onlyImage hps rfl (by decide)
  exact ⟨ends, s', files', n, hrun, hends, hsaid.trans (by decide)⟩

end MiniExt
