import MiniExt.Dispatch
import MiniExt.Disk.Machine
import Mathlib.Data.List.TakeWhile

namespace MiniExt

open Lib

/-!
# The client — its loop

Each turn reads a line of the standard input into one buffer, removes its last byte and
dispatches what is left.  The buffer outlives the turn, and at the end of the input `fgets`
leaves it as it is.

* `fgets`, `readCommandFromStdin` — one line of input;
* `readLines`, `SparesImage` — all of them, none of which names the image as a host file;
* `ByteWorld.turn` — one turn, on an image that is a file of bytes;
* `clientLoop` — the loop, with the lines it dispatched and how it ended.
-/

/-! ### Reading a line -/

/-- The end of a line. -/
def newline : UInt8 := 10

/-- The bytes `fgets` takes: up to the end of the line, and no more than there is room for. -/
def fgetsLine : (room : Nat) → (stdin : List UInt8) → List UInt8
  | 0, _ => []
  | _ + 1, [] => []
  | room + 1, b :: stdin => if b = newline then [b] else b :: fgetsLine room stdin

/-- `fgets`: the buffer and the rest of the input.  At the end of the input nothing changes. -/
def fgets (buffer : List UInt8) (bufferSize : Nat) (stdin : List UInt8) :
    List UInt8 × List UInt8 :=
  let line := fgetsLine (bufferSize - 1) stdin
  if line = [] then (buffer, stdin)
  else (memcpy buffer 0 (line ++ [0]), stdin.drop line.length)

/-- The C string in a buffer. -/
def bufferLine (buffer : List UInt8) : CString where
  bytes := buffer.takeWhile (· ≠ 0)
  nulFree := by
    intro h
    simpa using List.mem_takeWhile_imp h

/-- `strlen` of a buffer, which may lack a terminator. -/
def strlen (buffer : List UInt8) : Outcome Stop Nat :=
  if 0 ∈ buffer then .done (bufferLine buffer).bytes.length else .halted .memoryError

/-- `read_command_from_stdin`: the last byte of what is in the buffer is removed.  The length is
    a `uint32_t`, so one less than zero is an index far outside. -/
def readCommandFromStdin (buffer stdin : List UInt8) :
    Outcome Stop (List UInt8 × List UInt8) :=
  let (commandBuffer, stdin) := fgets buffer commandBufferLength stdin
  match strlen commandBuffer with
  | .halted e => .halted e
  | .done lenght =>
    let last := (lenght + 2 ^ 32 - 1) % 2 ^ 32
    if last < commandBuffer.length then .done (commandBuffer.set last 0, stdin)
    else .halted .memoryError

/-- The lines that turns of the loop read, whatever is done with them. -/
def readLines : (turns : Nat) → (buffer stdin : List UInt8) → List CString
  | 0, _, _ => []
  | turns + 1, buffer, stdin =>
    match readCommandFromStdin buffer stdin with
    | .halted _ => []
    | .done (buffer, stdin) => bufferLine buffer :: readLines turns buffer stdin

/-- The line runs a command that is given the image as a host file. -/
def Dispatch.NamesImage (files : HostFiles) : Dispatch → Prop
  | .run c => c.NamesImage files
  | _ => False

instance (files : HostFiles) (d : Dispatch) : Decidable (d.NamesImage files) :=
  match d with
  | .run c => inferInstanceAs (Decidable (c.NamesImage files))
  | .help | .rejected | .quit | .memoryError => instDecidableFalse

/-- No line that the turns read names the image. -/
def SparesImage (files : HostFiles) (turns : Nat) (buffer stdin : List UInt8) : Prop :=
  ∀ line ∈ readLines turns buffer stdin, ¬ (dispatch line).NamesImage files

instance (files : HostFiles) (turns : Nat) (buffer stdin : List UInt8) :
    Decidable (SparesImage files turns buffer stdin) :=
  inferInstanceAs (Decidable (∀ line ∈ readLines turns buffer stdin, _))

/-- The commands that the lines run do not name it. -/
theorem SparesImage.runs {files : HostFiles} {turns : Nat} {buffer stdin : List UInt8}
    (h : SparesImage files turns buffer stdin) :
    ∀ line ∈ readLines turns buffer stdin, ∀ c, dispatch line = .run c → ¬ c.NamesImage files := by
  intro line hline c hc
  have hspares := h line hline
  rwa [hc] at hspares

/-- The line of the first turn, and the rest. -/
theorem SparesImage.next {files : HostFiles} {turns : Nat}
    {buffer stdin buffer' stdin' : List UInt8} (h : SparesImage files (turns + 1) buffer stdin)
    (hread : readCommandFromStdin buffer stdin = .done (buffer', stdin')) :
    ¬ (dispatch (bufferLine buffer')).NamesImage files ∧
      SparesImage files turns buffer' stdin' := by
  unfold SparesImage at h
  rw [readLines, hread, List.forall_mem_cons] at h
  exact h

/-- It depends on the paths of the image alone. -/
theorem sparesImage_congr {F F' : HostFiles} (h : F.isImage = F'.isImage) (turns : Nat)
    (buffer stdin : List UInt8) :
    SparesImage F turns buffer stdin ↔ SparesImage F' turns buffer stdin := by
  have hline : ∀ d : Dispatch, d.NamesImage F ↔ d.NamesImage F' := by
    intro d
    cases d with
    | run c => exact Command.namesImage_congr h c
    | _ => exact Iff.rfl
  simp only [SparesImage, hline]

/-! ### The loop -/

/-- The bytes of the image and the host files, between two commands. -/
structure ByteWorld where
  image : List UInt8
  files : HostFiles

/-- How the client ends: it returns, a command ends its process, or it leaves its memory. -/
inductive ClientEnd where
  | returned | processEnded | memoryError
  deriving DecidableEq, Repr

/-- What a turn leads to; a command may not come back. -/
inductive TurnResult where
  | next (w : ByteWorld)
  | ended (e : ClientEnd)
  | hangs

/-- One turn on a line. -/
def ByteWorld.turn (w : ByteWorld) (line : CString) : TurnResult :=
  match dispatch line with
  | .help | .rejected => .next w
  | .quit => .ended .returned
  | .memoryError => .ended .memoryError
  | .run c =>
    match c.prog.run? (byteHandler fileHandler ImageFile.access) ⟨⟨w.image, 0⟩, w.files, []⟩ with
    | none => .hangs
    | some (.done _, m) => .next ⟨m.device.bytes, m.files⟩
    | some (.halted .exit, _) | some (.halted .abort, _) => .ended .processEnded
    | some (.halted .memoryError, _) | some (.halted .outside, _) => .ended .memoryError

/-- The loop of the client, `fuel` turns of it at most: the lines it dispatched, and how it
    ended. -/
def clientLoop : (fuel : Nat) → (buffer stdin : List UInt8) → ByteWorld →
    List CString × Option ClientEnd
  | 0, _, _, _ => ([], none)
  | fuel + 1, buffer, stdin, w =>
    match readCommandFromStdin buffer stdin with
    | .halted _ => ([], some .memoryError)
    | .done (buffer, stdin) =>
      let line := bufferLine buffer
      match w.turn line with
      | .hangs => ([line], none)
      | .ended e => ([line], some e)
      | .next w =>
        let (lines, e) := clientLoop fuel buffer stdin w
        (line :: lines, e)

end MiniExt
