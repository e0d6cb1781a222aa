import MiniExt.Host
import MiniExt.Lib.Printing
import MiniExt.Run

namespace MiniExt

open Lib

/-!
# Interface — what the codecs print

A transfer that fails makes its codec print `strerror(errno)`, and `read_block` and `write_block`
complain about a block that counts both records and data.  This file fixes what is printed at all,
and has the codecs once more, with their messages; the commands print over them.

* `Output`, `Printing` — what is printed, and programs that print;
* `Printing.exec` — how such a program ends, the world it leaves and what it prints;
* `Printing.readSuperBlock`, …, `Printing.writeBlock` — the codecs under their own names;
* `silent_readBlock`, … — each is the codec it repeats, but for its prints;
* `says_readBlock`, … — what a codec that returns has printed.
-/

/-- An argument of `printf`. -/
inductive Arg where
  | number (n : Nat)
  | string (bytes : List UInt8)
  deriving DecidableEq, Repr

/-- The functions that transfer a structure between the image and the memory. -/
inductive Codec where
  | readSuperBlock | writeSuperBlock | readDescriptorsTable | writeDescriptorTable
  | readInode | writeInode | readBlock | writeBlock | readBlockRecord | writeBlockRecord
  deriving DecidableEq, Repr

/-- One call of `fprintf(stderr, …)` or `printf`. -/
inductive Output where
  | stderr (text : String)
  /-- The text of `strerror(errno)`, which a codec prints on `stderr` when a transfer fails;
      `write_super_block` ends it with a newline where it wrote a mask. -/
  | strerror (codec : Codec)
  | stdout (format : String) (args : List Arg)
  deriving DecidableEq, Repr

/-- A program of the file system that prints. -/
abbrev Printing (α : Type) := Prog (host.printing Output) Stop α

instance : MonadLift ExtProg Printing := ⟨Prog.lift⟩

/-- `fprintf(stderr, …)` of a text. -/
def eprint (text : String) : Printing Unit := Prog.print (.stderr text)

/-- `fprintf(stderr, "%s", strerror(errno))` of a codec. -/
def complain (codec : Codec) : Printing Unit := Prog.print (.strerror codec)

/-- `printf`. -/
def printf (format : String) (args : List Arg) : Printing Unit := Prog.print (.stdout format args)

/-- How a program ends, the world it leaves and what it prints. -/
structure Printed (α : Type) where
  outcome : Outcome Stop α
  world : World
  output : List Output

/-- Run a program that prints from a world. -/
def Printing.exec {α : Type} (p : Printing α) (w : World) : Printed α :=
  let r := p.run hostHandler.printing (w.start, [])
  ⟨r.1, ⟨r.2.1.store, r.2.1.files⟩, r.2.2⟩

namespace Printing

/-! ### Codecs -/

/-- A codec that reads, with what it prints when it returns `-1`. -/
def reading {α : Type} (codec : Codec) (p : ExtProg (Option α)) : Printing (Option α) := do
  let read ← p
  if read.isNone then complain codec
  return read

/-- A codec that writes, with what it prints when it returns `-1`. -/
def writing (codec : Codec) (p : ExtProg Bool) : Printing Bool := do
  let written ← p
  if !written then complain codec
  return written

/-- `read_super_block`. -/
def readSuperBlock : Printing (Option Superblock) :=
  reading .readSuperBlock MiniExt.readSuperBlock

/-- `write_super_block`. -/
def writeSuperBlock (sb : Superblock) : Printing Bool :=
  writing .writeSuperBlock (MiniExt.writeSuperBlock sb)

/-- `read_descriptors_table`. -/
def readDescriptorsTable (sb : Superblock) : Printing (Option DescriptorsTable) :=
  reading .readDescriptorsTable (MiniExt.readDescriptorsTable sb)

/-- `write_descriptor_table`. -/
def writeDescriptorTable (sb : Superblock) (dt : DescriptorsTable) : Printing Bool :=
  writing .writeDescriptorTable (MiniExt.writeDescriptorTable sb dt)

/-- `read_inode`. -/
def readInode (h : Handle) (sb : Superblock) (inodeId : Nat) : Printing (Option Inode) :=
  reading .readInode (MiniExt.readInode h sb inodeId)

/-- `write_inode`. -/
def writeInode (h : Handle) (sb : Superblock) (inode : Inode) : Printing Bool :=
  writing .writeInode (MiniExt.writeInode h sb inode)

/-- `read_block`. -/
def readBlock (h : Handle) (sb : Superblock) (blockId : Nat) : Printing (Option Block) := do
  use .image
  use .superblock
  match ← askReadBlock sb.fsInfo blockId with
  | .read block => do
    acquire h
    return some block
  | .failed => do
    complain .readBlock
    return none
  | .mixed => do
    eprint "Block with data and records!"
    halt .memoryError
  | .destructed => do
    -- `read_block_record` complains first
    complain .readBlockRecord
    complain .readBlock
    release h
    halt .memoryError

/-- `write_block`. -/
def writeBlock (h : Handle) (sb : Superblock) (block : Block) : Printing Bool := do
  use .image
  use .superblock
  use h
  match ← askWriteBlock sb.fsInfo block with
  | .stored => return true
  | .failed => do
    complain .writeBlock
    return false
  | .rejected => do
    eprint "Block with data and records!"
    return false
  | .destructed => do
    complain .writeBlockRecord
    complain .writeBlock
    release h
    release h
    halt .memoryError

/-! ### The codecs without their prints -/

/-- A program that does not print is what is left of it. -/
@[simp] theorem silent_liftM {α : Type} (p : ExtProg α) : (liftM p : Printing α).silent = p :=
  Prog.silent_lift p

/-- Without its prints a message is nothing. -/
@[simp] theorem silent_eprint (text : String) : (eprint text).silent = pure () := rfl

/-- Without its prints a complaint is nothing. -/
@[simp] theorem silent_complain (codec : Codec) : (complain codec).silent = pure () := rfl

/-- Without its prints a line is nothing. -/
@[simp] theorem silent_printf (format : String) (args : List Arg) :
    (printf format args).silent = pure () := rfl

/-- What is left of a print before the rest of a program. -/
@[simp] theorem pure_bind_silent {α β : Type} (a : α) (f : α → ExtProg β) :
    (pure a >>= f) = f a := rfl

/-- A read without its prints. -/
theorem silent_reading {α : Type} (codec : Codec) (p : ExtProg (Option α)) :
    (reading codec p).silent = p := by
  have hrest : ∀ read : Option α, (do
      if read.isNone then complain codec
      return read : Printing (Option α)).silent = pure read := by
    intro read
    cases read with
    | none => rfl
    | some a => rfl
  simp only [reading, Prog.silent_bind, silent_liftM]
  exact (bind_congr hrest).trans (Prog.bind_pure p)

/-- A write without its prints. -/
theorem silent_writing (codec : Codec) (p : ExtProg Bool) : (writing codec p).silent = p := by
  have hrest : ∀ written : Bool, (do
      if !written then complain codec
      return written : Printing Bool).silent = pure written := by
    intro written
    cases written with
    | false => rfl
    | true => rfl
  simp only [writing, Prog.silent_bind, silent_liftM]
  exact (bind_congr hrest).trans (Prog.bind_pure p)

/-- `read_super_block` without its messages. -/
@[simp] theorem silent_readSuperBlock : readSuperBlock.silent = MiniExt.readSuperBlock :=
  silent_reading _ _

/-- `write_super_block` without its messages. -/
@[simp] theorem silent_writeSuperBlock (sb : Superblock) :
    (writeSuperBlock sb).silent = MiniExt.writeSuperBlock sb := silent_writing _ _

/-- `read_descriptors_table` without its messages. -/
@[simp] theorem silent_readDescriptorsTable (sb : Superblock) :
    (readDescriptorsTable sb).silent = MiniExt.readDescriptorsTable sb := silent_reading _ _

/-- `write_descriptor_table` without its messages. -/
@[simp] theorem silent_writeDescriptorTable (sb : Superblock) (dt : DescriptorsTable) :
    (writeDescriptorTable sb dt).silent = MiniExt.writeDescriptorTable sb dt := silent_writing _ _

/-- `read_inode` without its messages. -/
@[simp] theorem silent_readInode (h : Handle) (sb : Superblock) (inodeId : Nat) :
    (readInode h sb inodeId).silent = MiniExt.readInode h sb inodeId := silent_reading _ _

/-- `write_inode` without its messages. -/
@[simp] theorem silent_writeInode (h : Handle) (sb : Superblock) (inode : Inode) :
    (writeInode h sb inode).silent = MiniExt.writeInode h sb inode := silent_writing _ _

/-- **`read_block`** without its prints. -/
@[simp] theorem silent_readBlock (h : Handle) (sb : Superblock) (blockId : Nat) :
    (readBlock h sb blockId).silent = MiniExt.readBlock h sb blockId := by
  simp only [readBlock, MiniExt.readBlock, Prog.silent_bind, silent_liftM]
  refine bind_congr fun _ => bind_congr fun _ => bind_congr fun r => ?_
  cases r with
  | read block => simp
  | failed => simp
  | mixed => simp
  | destructed => simp

/-- **`write_block`** without its prints. -/
@[simp] theorem silent_writeBlock (h : Handle) (sb : Superblock) (block : Block) :
    (writeBlock h sb block).silent = MiniExt.writeBlock h sb block := by
  simp only [writeBlock, MiniExt.writeBlock, Prog.silent_bind, silent_liftM]
  refine bind_congr fun _ => bind_congr fun _ => bind_congr fun _ => bind_congr fun r => ?_
  cases r with
  | stored => simp
  | failed => simp
  | rejected => simp
  | destructed => simp

/-! ### Runs -/

section Runs

variable {α : Type} {m m' : Machine} {out : List Output}

/-- A part that prints nothing. -/
theorem run_lifted {p : ExtProg α} {o : Outcome Stop α} (h : p.run hostHandler m = (o, m'))
    (out : List Output) :
    (liftM p : Printing α).run hostHandler.printing (m, out) = (o, (m', out)) := by
  refine (Prog.run_lift hostHandler p m out).trans ?_
  rw [h]

/-- A message is appended to the output. -/
@[simp] theorem run_eprint (text : String) :
    (eprint text).run hostHandler.printing (m, out) = (.done (), (m, out ++ [.stderr text])) := rfl

/-- A read that succeeds prints nothing. -/
theorem run_reading (codec : Codec) {p : ExtProg (Option α)} {a : α}
    (h : p.run hostHandler m = (.done (some a), m')) (out : List Output) :
    (reading codec p).run hostHandler.printing (m, out) = (.done (some a), (m', out)) := by
  rw [reading, Prog.run_bind, run_lifted h, follow_done]
  rfl

/-- A write that succeeds prints nothing. -/
theorem run_writing (codec : Codec) {p : ExtProg Bool}
    (h : p.run hostHandler m = (.done true, m')) (out : List Output) :
    (writing codec p).run hostHandler.printing (m, out) = (.done true, (m', out)) := by
  rw [writing, Prog.run_bind, run_lifted h, follow_done]
  rfl

/-- What a `read_block` that returns has printed. -/
theorem says_readBlock (h : Handle) (sb : Superblock) (blockId : Nat) (out : List Output) :
    (readBlock h sb blockId).Says (fun _ => true) out fun r =>
      if r.isSome then out else out ++ [.strerror .readBlock] := by
  refine (Prog.mute_lift _).bind fun _ => (Prog.mute_lift _).bind fun _ =>
    (Prog.mute_lift _).bind fun r => ?_
  cases r with
  | read block => exact (Prog.mute_lift _).bind fun _ => Prog.says_pure rfl
  | failed => exact (Prog.says_print rfl).bind fun _ => Prog.says_pure rfl
  | mixed => exact (Prog.says_print rfl).bind fun _ => Prog.says_halt _ _
  | destructed =>
    exact (Prog.says_print rfl).bind fun _ => (Prog.says_print rfl).bind fun _ =>
      (Prog.mute_lift _).bind fun _ => Prog.says_halt _ _

/-- A block that is read. -/
theorem run_readBlock {h : Handle} {sb : Superblock} {blockId : Nat} {block : Block}
    (hrun : (MiniExt.readBlock h sb blockId).run hostHandler m = (.done (some block), m'))
    (out : List Output) :
    (readBlock h sb blockId).run hostHandler.printing (m, out) =
      (.done (some block), (m', out)) := by
  rw [← silent_readBlock] at hrun
  obtain ⟨all', hprint, hsaid⟩ := Prog.Says.run hostHandler (says_readBlock h sb blockId _) hrun
  have hsame : all' = out := by simpa using hsaid
  rw [hprint, hsame]

end Runs

/-- The prints change neither how a program ends nor the world it leaves. -/
theorem exec_silent {α : Type} (p : Printing α) (w : World) :
    MiniExt.exec p.silent w = ((p.exec w).outcome, (p.exec w).world) := by
  rw [MiniExt.exec, Prog.run_silent hostHandler p w.start []]
  rfl

end Printing

end MiniExt
