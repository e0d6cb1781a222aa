import MiniExt.Input
import MiniExt.Interface.PathPrinting
import MiniExt.Lib.PrintingHosts

namespace MiniExt

open Lib

/-!
# Interface — what the client prints of a line

The dispatch of the client once more, with its help text and the messages of the branches that miss
an argument, and its loop, with everything that is printed.  The loop runs commands on what it is
given to run them: the bytes of an image, or its records.

* `Printing.branch`, `Printing.dispatch` — the branches under their own names;
* `Runner` — what runs a command; `byteRunner`, `recordRunner`;
* `Printing.clientLoop` — the loop;
* `Printing.snd_dispatch` — the dispatch is the one that it repeats, but for its prints;
* `Printing.speaks_dispatch` — where the client itself prints.
-/

namespace Printing

/-! ### The branches -/

/-- What `help` prints. -/
def helpText : String :=
  "You are working with minifs\n" ++
  "Authored by yaishenka\n" ++
  "Source available ad github.com/yaishenka/ext\n" ++
  "Available commands:\n" ++
  "help -- print this text\n" ++
  "quit -- close program\n" ++
  "ls [path] -- list directory contents\n" ++
  "init -- init file system\n" ++
  "read_fs -- read fs_file and checks it\n" ++
  "mkdir [path] -- make directories\n" ++
  "touch [path] -- create files\n" ++
  "open [path] -- open file and return FD\n" ++
  "close [fd] -- close FD\n" ++
  "write [fd] [data] -- write data to FD\n" ++
  "write_from [fd] [path] -- read data from path and write to FD\n" ++
  "read [fd] [size] -- read size bytes from FD\n" ++
  "read_to [fd] [path] [size] -- read file from fd.pos and write data to path. " ++
  "If size not specified file will be readed till end\n" ++
  "lseek [fd] [pos] -- set fd.pos = pos\n"

/-- What is printed, and what is done. -/
abbrev Answer := List Output × Dispatch

/-- A command is run; its prints come from the command. -/
def runs (c : Command) : Answer := ([], .run c)

/-- A message, and nothing else. -/
def rejects (message : String) : Answer := ([.stdout message []], .rejected)

/-- An argument, or a message. -/
def requireArg (message : String) (arg : Option CString) (branch : CString → Answer) : Answer :=
  match arg with
  | none => rejects message
  | some arg => if arg.bytes = [] then rejects message else branch arg

/-- A branch with a path. -/
def pathBranch (message : String) (command : CString → Command) (firstArg : Option CString) :
    Answer :=
  requireArg message firstArg fun arg => runs (command (parseCommand arg).1)

/-- A branch with a descriptor. -/
def fdBranch (message : String) (branch : (fd : Nat) → CString → Answer) (firstArg : CString) :
    Answer :=
  let (fdText, secondArg) := parseCommand firstArg
  requireArg message secondArg fun arg => branch (parseNumber 16 fdText) arg

/-- The branch of `read_to` behind its descriptor. -/
def readToBranch (fd : Nat) (secondArg : CString) : Answer :=
  let (path, thirdArg) := parseCommand secondArg
  match thirdArg with
  | none => runs (.readTo fd path none)
  | some arg =>
    if arg.bytes = [] then runs (.readTo fd path none)
    else runs (.readTo fd path (some (parseNumber 32 (parseCommand arg).1)))

/-- The branches with their messages: `touch` complains as `mkdir` does, and `close` as `open`. -/
def branch (word : CommandWord) (firstArg : Option CString) : Answer :=
  match word with
  | .help => ([.stdout helpText []], .help)
  | .init => runs .init
  | .readFs => runs .readFs
  | .ls => pathBranch "Ls requires path\n" .ls firstArg
  | .quit => ([], .quit)
  | .mkdir => pathBranch "Mkdir requires path\n" .mkdir firstArg
  | .touch => pathBranch "Mkdir requires path\n" .touch firstArg
  | .open => pathBranch "Open requires path\n" .open firstArg
  | .close =>
    requireArg "Open requires path\n" firstArg fun arg =>
      runs (.close (parseNumber 16 (parseCommand arg).1))
  | .write =>
    requireArg "Write requires fd\n" firstArg
      (fdBranch "Write requires data\n" fun fd arg => runs (.write fd (parseCommand arg).1.bytes))
  | .read =>
    match firstArg with
    -- the only branch that does not look: `parse_command` is given `NULL`
    | none => ([], .memoryError)
    | some arg =>
      fdBranch "Read requires size\n"
        (fun fd arg => runs (.read fd (parseNumber 32 (parseCommand arg).1))) arg
  | .writeFrom =>
    requireArg "Write from requires fd\n" firstArg
      (fdBranch "Write from requires path\n" fun fd arg =>
        runs (.writeFrom fd (parseCommand arg).1))
  | .readTo =>
    requireArg "Read to requires fd\n" firstArg (fdBranch "Read to requires path\n" readToBranch)
  | .lseek =>
    requireArg "Lseek requires fd\n" firstArg
      (fdBranch "Lseek requires position\n" fun fd arg =>
        runs (.lseek fd (parseNumber 32 (parseCommand arg).1)))

/-- What the client prints of a line, and what it does with it. -/
def dispatch (line : CString) : Answer :=
  let (command, firstArg) := parseCommand line
  match findWord command.bytes with
  | none => rejects "Unsupported command\n"
  | some word => branch word firstArg

end Printing

/-! ### The loop -/

/-- How the client ends when a command ends like this, if it does. -/
def clientEnd : Outcome Stop Unit → Option ClientEnd
  | .done _ => none
  | .halted .exit | .halted .abort => some .processEnded
  | .halted .memoryError | .halted .outside => some .memoryError

/-- What runs a command, given what is in the buffer of `read` from before: how the command ends,
    what it prints and what it leaves.  It may not come back. -/
abbrev Runner (σ : Type) :=
  σ → Command → List UInt8 → Option ((Outcome Stop Unit × List Output) × σ)

/-- Commands on a device. -/
def byteRunner {δ : Type} (d : PartialHandler device δ Stop) (a : ImageAccess δ) :
    Runner (δ × HostFiles) := fun s c data =>
  ((c.print data).run? (PartialHandler.printing (byteHandler d a)) (⟨s.1, s.2, []⟩, [])).map
    fun r => ((r.1, r.2.2), (r.2.1.device, r.2.1.files))

/-- Commands on records. -/
def recordRunner : Runner World := fun w c data =>
  let r := (c.print data).exec w
  some ((r.outcome, r.output), r.world)

/-- What the client has printed, and how it has ended, if it has. -/
abbrev Printed.Client := List Output × Option ClientEnd

/-- The loop of the client, `turns` of it at most.  In each turn the buffer of `read` holds
    what is on the stack. -/
def Printing.clientLoop {σ : Type} (run : Runner σ) : (turns : Nat) → (stack : Nat → List UInt8) →
    (buffer stdin : List UInt8) → σ → Option (Printed.Client × σ)
  | 0, _, _, _, s => some (([], none), s)
  | turns + 1, stack, buffer, stdin, s =>
    match readCommandFromStdin buffer stdin with
    -- the buffer has no terminator, or there is no last byte to remove
    | .halted _ => some (([], some .memoryError), s)
    | .done (buffer, stdin) =>
      let next := clientLoop run turns (stack ∘ Nat.succ) buffer stdin
      let printed (said : List Output) := Prod.map (Prod.map (said ++ ·) id) id
      let (said, action) := dispatch (bufferLine buffer)
      match action with
      | .help | .rejected => (next s).map (printed said)
      | .quit => some ((said, some .returned), s)
      | .memoryError => some ((said, some .memoryError), s)
      | .run c =>
        -- a command that does not come back ends the loop without an end
        (run s c (stack 0)).bind fun r =>
          match clientEnd r.1.1 with
          | none => (next r.2).map (printed (said ++ r.1.2))
          | some e => some ((said ++ r.1.2, some e), r.2)

/-! ### The dispatch without its prints -/

namespace Printing

/-- Without its message an argument is asked for as before. -/
theorem snd_requireArg (message : String) (arg : Option CString) (f : CString → Answer) :
    (requireArg message arg f).2 = MiniExt.requireArg arg fun s => (f s).2 := by
  cases arg with
  | none => rfl
  | some s => exact apply_ite Prod.snd _ _ _

/-- Without its message a descriptor is asked for as before. -/
theorem snd_fdBranch (message : String) (f : Nat → CString → Answer) (s : CString) :
    (fdBranch message f s).2 = MiniExt.fdBranch (fun fd arg => (f fd arg).2) s :=
  snd_requireArg message _ _

/-- Without its message a size is looked for as before. -/
theorem snd_readToBranch (fd : Nat) (s : CString) :
    (readToBranch fd s).2 = MiniExt.readToBranch fd s := by
  unfold readToBranch MiniExt.readToBranch
  dsimp only
  rcases (parseCommand s).2 with _ | arg
  · rfl
  · exact apply_ite Prod.snd _ _ _

/-- **The branches** do without their messages what they did before. -/
theorem snd_branch (word : CommandWord) (arg : Option CString) :
    (branch word arg).2 = MiniExt.branch word arg := by
  -- a branch with a descriptor
  have hfd : ∀ (message message' : String) (f : Nat → CString → Answer),
      (requireArg message arg (fdBranch message' f)).2 =
        MiniExt.requireArg arg (MiniExt.fdBranch fun fd s => (f fd s).2) := by
    intro message message' f
    rw [snd_requireArg]
    exact congrArg _ (funext (snd_fdBranch message' f))
  cases word with
  | help | init | readFs | quit => rfl
  | ls | mkdir | touch | «open» | close => exact snd_requireArg _ arg _
  | write | writeFrom | lseek => exact hfd _ _ _
  | readTo =>
    refine (hfd _ _ readToBranch).trans ?_
    simp only [snd_readToBranch]
    rfl
  | read =>
    cases arg with
    | none => rfl
    | some s => exact snd_fdBranch _ _ s

/-- **The dispatch** is the same without its prints. -/
theorem snd_dispatch (line : CString) : (dispatch line).2 = MiniExt.dispatch line := by
  unfold dispatch MiniExt.dispatch
  dsimp only
  rcases findWord (parseCommand line).1.bytes with _ | word
  · rfl
  · exact snd_branch word _

/-! ### Where the client itself prints -/

/-- Something is printed exactly with the help and with a rejection. -/
def Speaks (a : Answer) : Prop := a.1 = [] ↔ a.2 ≠ .help ∧ a.2 ≠ .rejected

/-- A command is run without a word. -/
theorem speaks_runs (c : Command) : Speaks (runs c) :=
  iff_of_true rfl ⟨Dispatch.noConfusion, Dispatch.noConfusion⟩

/-- A line is rejected with a message. -/
theorem speaks_rejects (message : String) : Speaks (rejects message) :=
  iff_of_false (List.cons_ne_nil _ _) fun h => h.2 rfl

/-- A missing argument is rejected with a message. -/
theorem speaks_requireArg (message : String) (arg : Option CString) {f : CString → Answer}
    (hf : ∀ s, Speaks (f s)) : Speaks (requireArg message arg f) := by
  unfold requireArg
  split
  · exact speaks_rejects message
  · split
    · exact speaks_rejects message
    · exact hf _

/-- A missing second argument is rejected with a message. -/
theorem speaks_fdBranch (message : String) {f : Nat → CString → Answer}
    (hf : ∀ fd s, Speaks (f fd s)) (s : CString) : Speaks (fdBranch message f s) :=
  speaks_requireArg message _ (hf _)

/-- The branch of `read_to` rejects with a message. -/
theorem speaks_readToBranch (fd : Nat) (s : CString) : Speaks (readToBranch fd s) := by
  unfold readToBranch
  dsimp only
  split
  · exact speaks_runs _
  · split
    · exact speaks_runs _
    · exact speaks_runs _

/-- **Every branch** prints exactly when it rejects. -/
theorem speaks_branch (word : CommandWord) (arg : Option CString) : Speaks (branch word arg) := by
  have hfd : ∀ (message : String) (f : Nat → CString → Command) (s : CString),
      Speaks (fdBranch message (fun fd arg => runs (f fd arg)) s) := fun message f s =>
    speaks_fdBranch message (fun _ _ => speaks_runs _) s
  cases word with
  | help => exact iff_of_false (List.cons_ne_nil _ _) fun h => h.1 rfl
  | quit => exact iff_of_true rfl ⟨Dispatch.noConfusion, Dispatch.noConfusion⟩
  | init | readFs => exact speaks_runs _
  | ls | mkdir | touch | «open» | close =>
    exact speaks_requireArg _ _ fun _ => speaks_runs _
  | write | writeFrom | lseek => exact speaks_requireArg _ _ (hfd _ _)
  | readTo => exact speaks_requireArg _ _ (speaks_fdBranch _ speaks_readToBranch)
  | read =>
    cases arg with
    | none => exact iff_of_true rfl ⟨Dispatch.noConfusion, Dispatch.noConfusion⟩
    | some s => exact hfd _ _ s

/-- **On every line** the client prints of its own exactly where it prints its help or rejects
    the line. -/
theorem speaks_dispatch (line : CString) : Speaks (dispatch line) := by
  unfold dispatch
  dsimp only
  split
  · exact speaks_rejects _
  · exact speaks_branch _ _

/-- Before a command nothing is printed. -/
theorem dispatch_of_run {line : CString} {c : Command} (h : MiniExt.dispatch line = .run c) :
    dispatch line = runs c := by
  have hrun : (dispatch line).2 = .run c := (snd_dispatch line).trans h
  refine Prod.ext ((speaks_dispatch line).mpr ?_) hrun
  rw [hrun]
  exact ⟨Dispatch.noConfusion, Dispatch.noConfusion⟩

end Printing

end MiniExt
