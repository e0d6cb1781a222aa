import MiniExt.Interface.ReadFile

namespace MiniExt

open Lib

/-!
# The client

The commands the client loop dispatches, their effect on an image and the images that
runs of commands reach.  A command that halts leaves the image as of its last host write;
the next command starts from there.  A host path may be the image's own: what is read there is
any content, and what is written there is left to the bytes of the image, see
`Disk/Machine.lean`.
-/

/-- A C string: its bytes, none of them the terminator. -/
@[ext]
structure CString where
  bytes : List UInt8
  nulFree : 0 ∉ bytes
  deriving DecidableEq

/-- The commands of the client, after their arguments were parsed. -/
inductive Command where
  | init
  | readFs
  | ls (path : CString)
  | mkdir (path : CString)
  | touch (path : CString)
  | open (path : CString)
  | close (fd : Nat)
  | write (fd : Nat) (data : List UInt8)
  | writeFrom (fd : Nat) (path : CString)
  | read (fd size : Nat)
  | readTo (fd : Nat) (path : CString) (size : Option Nat)
  | lseek (fd pos : Nat)

/-- The branch of `read` in the client: `read_file` into a buffer of 256 bytes, then the
    store of a terminator at the requested size. -/
def readCommand (fd size : Nat) : ExtProg Unit := do
  let _ ← readFile fd size commandBufferLength
  if commandBufferLength ≤ size then halt .memoryError
  else return ()

/-- The program of a command. -/
def Command.prog : Command → ExtProg Unit
  | .init => initFs
  | .readFs => MiniExt.readFs
  | .ls path => MiniExt.ls path.bytes
  | .mkdir path => createDir path.bytes
  | .touch path => createFile path.bytes
  | .open path => do let _ ← openFile path.bytes
  | .close fd => closeFile fd
  | .write fd data => do let _ ← writeToFile fd data
  | .writeFrom fd path => writeToFileFromFile fd path.bytes
  | .read fd size => readCommand fd size
  | .readTo fd path size => readFileToFile fd path.bytes size
  | .lseek fd pos => lseekPos fd pos

/-- The command writes a host file. -/
def Command.WritesHost : Command → Prop
  | .readTo _ _ _ => True
  | _ => False

/-- The command writes a host file, and its path leads to the image. -/
def Command.OntoImage (files : HostFiles) : Command → Prop
  | .readTo _ path _ => files.isImage path.bytes
  | _ => False

/-- The command is given the image as a host file, to read or to write. -/
def Command.NamesImage (files : HostFiles) : Command → Prop
  | .writeFrom _ path | .readTo _ path _ => files.isImage path.bytes
  | _ => False

instance (c : Command) : Decidable c.WritesHost :=
  match c with
  | .readTo _ _ _ => instDecidableTrue
  | .init | .readFs | .ls _ | .mkdir _ | .touch _ | .open _ | .close _ | .write _ _
  | .writeFrom _ _ | .read _ _ | .lseek _ _ => instDecidableFalse

instance (files : HostFiles) (c : Command) : Decidable (c.OntoImage files) :=
  match c with
  | .readTo _ path _ => inferInstanceAs (Decidable (files.isImage path.bytes = true))
  | .init | .readFs | .ls _ | .mkdir _ | .touch _ | .open _ | .close _ | .write _ _
  | .writeFrom _ _ | .read _ _ | .lseek _ _ => instDecidableFalse

instance (files : HostFiles) (c : Command) : Decidable (c.NamesImage files) :=
  match c with
  | .writeFrom _ path | .readTo _ path _ =>
    inferInstanceAs (Decidable (files.isImage path.bytes = true))
  | .init | .readFs | .ls _ | .mkdir _ | .touch _ | .open _ | .close _ | .write _ _
  | .read _ _ | .lseek _ _ => instDecidableFalse

/-- A command onto the image writes a host file. -/
theorem Command.OntoImage.writesHost {files : HostFiles} {c : Command} (h : c.OntoImage files) :
    c.WritesHost := by
  cases c with
  | readTo fd path size => exact trivial
  | _ => exact h.elim

/-- A command onto the image is given the image. -/
theorem Command.OntoImage.namesImage {files : HostFiles} {c : Command} (h : c.OntoImage files) :
    c.NamesImage files := by
  cases c with
  | readTo fd path size => exact h
  | _ => exact h.elim

/-- Which commands are onto the image depends on its paths alone. -/
theorem Command.ontoImage_congr {F F' : HostFiles} (h : F.isImage = F'.isImage) (c : Command) :
    c.OntoImage F ↔ c.OntoImage F' := by
  cases c <;> simp only [Command.OntoImage, h]

/-- Which commands are given it does so, too. -/
theorem Command.namesImage_congr {F F' : HostFiles} (h : F.isImage = F'.isImage) (c : Command) :
    c.NamesImage F ↔ c.NamesImage F' := by
  cases c <;> simp only [Command.NamesImage, h]

/-- An image and the files of the host, between two commands. -/
structure World where
  store : Store
  files : HostFiles

/-- The machine a command starts in: nothing is live. -/
def World.start (w : World) : Machine := ⟨w.store, w.files, [], []⟩

/-- No host file can be read, and the image is at one path, `test_fs`. -/
def HostFiles.onlyImage : HostFiles where
  file path := if path = [116, 101, 115, 116, 95, 102, 115] then 0 else 1
  image := 0
  content _ := none

/-- Run a program from a world. -/
def exec {α : Type} (p : ExtProg α) (w : World) : Outcome Stop α × World :=
  let r := p.run hostHandler w.start
  (r.1, ⟨r.2.store, r.2.files⟩)

/-- The world a command leaves. -/
def World.step (w : World) (c : Command) : World := (exec c.prog w).2

/-- The world a sequence of commands leaves. -/
def World.steps (w : World) (cs : List Command) : World := cs.foldl World.step w

/-- The worlds that `init` leads to by commands that all meet a condition, each in the
    world it starts from.  Between two commands the host may change its files. -/
inductive ReachableBy (Meets : World → Command → Prop) : World → Prop where
  | init (w : World) : ReachableBy Meets (w.step .init)
  | step {w : World} (c : Command) : ReachableBy Meets w → Meets w c →
    ReachableBy Meets (w.step c)
  | host {w : World} (files : HostFiles) : ReachableBy Meets w →
    ReachableBy Meets { w with files := files }

/-- The worlds that `init` followed by any commands can leave, as long as none of them writes a
    host file onto the image. -/
def Reachable (w : World) : Prop :=
  ReachableBy (fun w c => ¬ c.OntoImage w.files) w

namespace Reachable

variable {w : World}

/-- `init` makes a new image of whatever there was. -/
theorem init (w : World) : Reachable (w.step .init) :=
  ReachableBy.init w

/-- A command goes on from what runs reach. -/
theorem step (h : Reachable w) {c : Command} (hc : ¬ c.OntoImage w.files) :
    Reachable (w.step c) :=
  ReachableBy.step c h hc

/-- Between two commands the host may change its files. -/
theorem host (h : Reachable w) (files : HostFiles) : Reachable { w with files := files } :=
  ReachableBy.host files h

end Reachable

end MiniExt
