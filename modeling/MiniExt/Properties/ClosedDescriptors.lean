import MiniExt.Interface.Printing
import MiniExt.Properties.Descriptors

namespace MiniExt

open Lib

/-!
# Closed and invalid descriptors

`close`, `read`, `write`, `lseek`, `read_to` and `write_from` on a number that is not the number
of a reserved descriptor.  The number is an index into the arrays of the descriptor table before
anything else is known of it: below `descriptors_count` the entry says that the descriptor is
closed, and from there on the access itself is the error.  Only `write_from` looks at its other
argument first, and reports a host file it cannot read without a look at the table.

* `DescriptorCall` — the six calls;
* `DescriptorCall.Inert` — an error is reported, the image stays, no array is left;
* `inert_iff` — exactly when a call on a closed descriptor is inert.
-/

/-- The calls on a descriptor, with their other arguments. -/
inductive DescriptorCall where
  | closeFile
  | readFile (size capacity : Nat)
  | writeToFile (data : List UInt8)
  | lseekPos (pos : Nat)
  | readFileToFile (path : List UInt8) (size : Option Nat)
  | writeToFileFromFile (path : List UInt8)

/-- The program of a call on descriptor `n`. -/
def DescriptorCall.prog (n : Nat) : DescriptorCall → Printing Unit
  | .closeFile => Printing.closeFile n
  | .readFile size capacity => do let _ ← Printing.readFile n size capacity
  | .writeToFile data => do let _ ← Printing.writeToFile n data
  | .lseekPos pos => Printing.lseekPos n pos
  | .readFileToFile path size => Printing.readFileToFile n path size
  | .writeToFileFromFile path => Printing.writeToFileFromFile n path

/-- Number `n` is not the number of a reserved descriptor. -/
def Store.Closed (st : Store) (n : Nat) : Prop :=
  ∀ dt, st.descriptorsTable = some dt → dt.reservedFd[n]? ≠ some true

/-- A call on descriptor `n` reports an error, leaves the image as it is and accesses no array
    out of its bounds. -/
structure DescriptorCall.Inert (c : DescriptorCall) (n : Nat) (w : World) : Prop where
  reported : ∃ text, .stderr text ∈ ((c.prog n).exec w).output
  unchanged : ((c.prog n).exec w).world.store = w.store
  inBounds : ((c.prog n).exec w).outcome ≠ .halted .memoryError

/-! ### Runs -/

namespace Image.Ok

variable {I : Image} {F : HostFiles} {T : List Store} {out : List Output} {n : Nat}

/-- A command starts without a message. -/
theorem run_enter_printing (h : I.Ok) :
    Printing.enter.run hostHandler.printing (⟨I.store, F, [], T⟩, out) =
      (.done I.sb, (⟨I.store, F, [.superblock, .image], T⟩, out)) := by
  have hopen := Printing.run_lifted (run_openImage (S := I.store) (F := F) (L := []) (T := T)) out
  have hread := Printing.run_reading .readSuperBlock
    (run_readSuperBlock (S := I.store) (B := I.sb) (F := F) (L := [.image]) (T := T) rfl
      (by simp)) out
  have huse := Printing.run_lifted (run_use (S := I.store) (F := F) (T := T)
    (L := [.superblock, .image]) (h := .superblock) (by simp)) out
  have hroot := Printing.run_lifted (run_index_some h.root_reserved
    ⟨I.store, F, [.superblock, .image], T⟩) out
  have hmagic : I.sb.fsInfo.magic = magicNumber := by
    rw [h.layout.geometry]
    rfl
  simp only [Printing.enter, Printing.openFs, Printing.readSuperBlock, Prog.run_bind, hopen, hread,
    huse, hroot, follow_done, Bool.not_true, Bool.false_eq_true, if_false, Option.getD_some, hmagic,
    ne_eq, not_true_eq_false, Prog.run_pure, rootInodeId]

/-- The table is read without a message. -/
theorem run_readTable_printing (h : I.Ok) :
    (Printing.readDescriptorsTable I.sb).run hostHandler.printing
        (⟨I.store, F, [.superblock, .image], T⟩, out) =
      (.done (some I.dt),
        (⟨I.store, F, [.descriptorsTable, .superblock, .image], T⟩, out)) :=
  Printing.run_reading .readDescriptorsTable
    (run_readDescriptorsTable (S := I.store) (B := I.sb) (F := F) (L := [.superblock, .image])
      (T := T) rfl h.layout.geometry (by simp) (by simp)) out

/-- The table that was read may be used. -/
theorem run_useTable_printing (S : Store) :
    (liftM (use .descriptorsTable) : Printing Unit).run hostHandler.printing
        (⟨S, F, [.descriptorsTable, .superblock, .image], T⟩, out) =
      (.done (), (⟨S, F, [.descriptorsTable, .superblock, .image], T⟩, out)) :=
  Printing.run_lifted (run_use (by simp)) out

/-- Leaving releases the table, the superblock and the image. -/
theorem run_leaveTable_printing (S : Store) :
    (liftM leaveTable : Printing Unit).run hostHandler.printing
        (⟨S, F, [.descriptorsTable, .superblock, .image], T⟩, out) =
      (.done (), (⟨S, F, [], T⟩, out)) :=
  Printing.run_lifted run_leaveTable out

/-- A command that needs the table starts without a message. -/
theorem run_enterTable_printing (h : I.Ok) :
    Printing.enterTable.run hostHandler.printing (⟨I.store, F, [], T⟩, out) =
      (.done (I.sb, I.dt),
        (⟨I.store, F, [.descriptorsTable, .superblock, .image], T⟩, out)) := by
  simp only [Printing.enterTable, Prog.run_bind, h.run_enter_printing, follow_done,
    h.run_readTable_printing, Prog.run_pure]

/-! ### Numbers of closed descriptors -/

section Closed

variable (hres : I.dt.reservedFd[n]? = some false)

include hres

/-- **`close_file`** of a closed descriptor: the message, and the table is stored as it was. -/
theorem run_closeFile_closed (h : I.Ok) :
    (Printing.closeFile n).run hostHandler.printing (⟨I.store, F, [], T⟩, out) =
      (.done (), (⟨I.store, F, [], I.store :: T⟩,
        out ++ [.stderr "Can't release same fd twice. Abort!\n"])) := by
  have hindex := Printing.run_lifted (run_index_some hres
    ⟨I.store, F, [.descriptorsTable, .superblock, .image], T⟩) out
  have hwrite := Printing.run_writing .writeDescriptorTable
    (run_writeDescriptorTable (S := I.store) (B := I.sb) (F := F)
      (L := [.descriptorsTable, .superblock, .image]) (T := T) I.dt h.layout.geometry (by simp)
    (by simp) (by simp)) (out ++ [.stderr "Can't release same fd twice. Abort!\n"])
  simp only [Printing.closeFile, Printing.freeDescriptor, Printing.storeTable,
    Printing.writeDescriptorTable, Prog.run_bind, h.run_enterTable_printing, follow_done,
    run_useTable_printing, hindex, Bool.not_false, if_true, Printing.run_eprint, Prog.run_pure,
    hwrite, Bool.not_true, Bool.false_eq_true,
    if_false, run_leaveTable_printing]
  rfl

/-- **`lseek_pos`** on a closed descriptor: the message; the image stays open. -/
theorem run_lseekPos_closed (h : I.Ok) (pos : Nat) :
    (Printing.lseekPos n pos).run hostHandler.printing (⟨I.store, F, [], T⟩, out) =
      (.done (), (⟨I.store, F, [.image], T⟩,
        out ++ [.stderr "Descriptor is closed. Abort!\n"])) := by
  have hindex := Printing.run_lifted (run_index_some hres
    ⟨I.store, F, [.descriptorsTable, .superblock, .image], T⟩) out
  have htable := Printing.run_lifted (run_release (S := I.store) (F := F) (T := T)
    (L := [.descriptorsTable, .superblock, .image]) (h := .descriptorsTable) (by simp))
    (out ++ [.stderr "Descriptor is closed. Abort!\n"])
  have hsb := Printing.run_lifted (run_release (S := I.store) (F := F) (T := T)
    (L := [.superblock, .image]) (h := .superblock) (by simp))
    (out ++ [.stderr "Descriptor is closed. Abort!\n"])
  simp only [Printing.lseekPos, Prog.run_bind, h.run_enterTable_printing, follow_done,
    run_useTable_printing, hindex, Bool.not_false, if_true, Printing.run_eprint, htable,
    List.erase_cons_head, hsb]

/-- **`read_file`** from a closed descriptor: the message, and `-1`. -/
theorem run_readFile_closed (h : I.Ok) (size capacity : Nat) :
    (Printing.readFile n size capacity).run hostHandler.printing (⟨I.store, F, [], T⟩, out) =
      (.done none, (⟨I.store, F, [], T⟩,
        out ++ [.stderr "Trying to read from closed fd. Abort!\n"])) := by
  have hindex := Printing.run_lifted (run_index_some hres
    ⟨I.store, F, [.descriptorsTable, .superblock, .image], T⟩) out
  simp only [Printing.readFile, Prog.run_bind, h.run_enter_printing, follow_done,
    h.run_readTable_printing, run_useTable_printing, hindex, Bool.not_false, if_true,
    Printing.run_eprint, run_leaveTable_printing, Prog.run_pure]

/-- **`write_to_file`** to a closed descriptor: the message, and `-1`. -/
theorem run_writeToFile_closed (h : I.Ok) (data : List UInt8) :
    (Printing.writeToFile n data).run hostHandler.printing (⟨I.store, F, [], T⟩, out) =
      (.done none, (⟨I.store, F, [], T⟩,
        out ++ [.stderr "Trying to write to closed fd. Abort!\n"])) := by
  have hindex := Printing.run_lifted (run_index_some hres
    ⟨I.store, F, [.descriptorsTable, .superblock, .image], T⟩) out
  simp only [Printing.writeToFile, Prog.run_bind, h.run_enter_printing, follow_done,
    h.run_readTable_printing, run_useTable_printing, hindex, Bool.not_false, if_true,
    Printing.run_eprint, run_leaveTable_printing, Prog.run_pure]

end Closed

/-! ### Numbers past the table -/

section Past

variable (hres : I.dt.reservedFd[n]? = none)

include hres

/-- The access itself is the error. -/
theorem run_lookup_past (S : Store) :
    (liftM (index I.dt.reservedFd n) : Printing Bool).run hostHandler.printing
        (⟨S, F, [.descriptorsTable, .superblock, .image], T⟩, out) =
      (.halted .memoryError, (⟨S, F, [.descriptorsTable, .superblock, .image], T⟩, out)) :=
  Printing.run_lifted (run_index_none hres _) out

/-- `close_file` of a number past the table leaves the array. -/
theorem run_closeFile_past (h : I.Ok) :
    (Printing.closeFile n).run hostHandler.printing (⟨I.store, F, [], T⟩, out) =
      (.halted .memoryError,
        (⟨I.store, F, [.descriptorsTable, .superblock, .image], T⟩, out)) := by
  simp only [Printing.closeFile, Printing.freeDescriptor, Prog.run_bind, h.run_enterTable_printing,
    follow_done, run_useTable_printing, run_lookup_past hres, follow_halted]

/-- `lseek_pos` on a number past the table leaves the array. -/
theorem run_lseekPos_past (h : I.Ok) (pos : Nat) :
    (Printing.lseekPos n pos).run hostHandler.printing (⟨I.store, F, [], T⟩, out) =
      (.halted .memoryError,
        (⟨I.store, F, [.descriptorsTable, .superblock, .image], T⟩, out)) := by
  simp only [Printing.lseekPos, Prog.run_bind, h.run_enterTable_printing, follow_done,
    run_useTable_printing, run_lookup_past hres, follow_halted]

/-- `read_file` from a number past the table leaves the array. -/
theorem run_readFile_past (h : I.Ok) (size capacity : Nat) :
    (Printing.readFile n size capacity).run hostHandler.printing (⟨I.store, F, [], T⟩, out) =
      (.halted .memoryError,
        (⟨I.store, F, [.descriptorsTable, .superblock, .image], T⟩, out)) := by
  simp only [Printing.readFile, Prog.run_bind, h.run_enter_printing, follow_done,
    h.run_readTable_printing, run_useTable_printing, run_lookup_past hres, follow_halted]

/-- `write_to_file` to a number past the table leaves the array. -/
theorem run_writeToFile_past (h : I.Ok) (data : List UInt8) :
    (Printing.writeToFile n data).run hostHandler.printing (⟨I.store, F, [], T⟩, out) =
      (.halted .memoryError,
        (⟨I.store, F, [.descriptorsTable, .superblock, .image], T⟩, out)) := by
  simp only [Printing.writeToFile, Prog.run_bind, h.run_enter_printing, follow_done,
    h.run_readTable_printing, run_useTable_printing, run_lookup_past hres, follow_halted]

end Past

/-! ### The two calls with a host file -/

/-- `read_to` is `read` into a buffer of the size it asks for, and what it does with the bytes. -/
theorem run_readFileToFile_printing (h : I.Ok) (path : List UInt8) (size : Option Nat) :
    (Printing.readFileToFile n path size).run hostHandler.printing (⟨I.store, F, [], T⟩, out) =
      follow ((Printing.readFile n (clampSize size) (clampSize size)).run hostHandler.printing
        (⟨I.store, F, [], T⟩, out)) fun r m => (match r with
          | none => return ()
          | some buffer => do
            if !(← writeHostFile path buffer) then
              eprint "Can't open file to write. Abort!\n"
              return ()
            else
              printf "Written %zd to %s\n" [.number buffer.length, .string path]
              return () : Printing Unit).run hostHandler.printing m := by
  have hleave := Printing.run_lifted (run_leave (S := I.store) (F := F) (T := T)) out
  simp only [Printing.readFileToFile, Prog.run_bind, h.run_enter_printing, follow_done, hleave,
    h.layout.geometry, getMaxDataSizeOfAllBlocks_default]
  cases size with
  | none => rfl
  | some size => rfl

/-- `write_from` reads its host file first, and writes what it could read. -/
theorem run_writeToFileFromFile_printing (path : List UInt8) (m : Machine) :
    (Printing.writeToFileFromFile n path).run hostHandler.printing (m, out) =
      match hostData m.files path with
      | none => (.done (), (m, out ++ [.stderr (
          if m.files path = none then "Can't open file. Abort!"
          else "Can't read file with data. Abort!\n")]))
      | some data => follow ((Printing.writeToFile n data).run hostHandler.printing (m, out))
          fun _ m => (.done (), m) := by
  have hread := Printing.run_lifted (run_readHostFile path m) out
  simp only [Printing.writeToFileFromFile, Prog.run_bind, hread, follow_done, hostData]
  rcases hfile : m.files path with _ | buffer
  · rfl
  · by_cases hsize : buffer.length % 2 ^ 32 = 2 ^ 32 - 1
    · simp only [if_pos hsize, Prog.run_bind, Printing.run_eprint, follow_done, Prog.run_pure]
      rfl
    · simp only [if_neg hsize, Prog.run_bind, Prog.run_pure]

end Image.Ok

/-! ### Calls -/

namespace DescriptorCall

variable {I : Image} {F : HostFiles} {n : Nat}

/-- A run that only prints an error is inert. -/
theorem Inert.of_run {c : DescriptorCall} {L : List Handle} {T : List Store} {text : String}
    (hrun : (c.prog n).run hostHandler.printing (⟨I.store, F, [], []⟩, []) =
      (.done (), (⟨I.store, F, L, T⟩, [.stderr text]))) : c.Inert n ⟨I.store, F⟩ := by
  have hexec : (c.prog n).exec ⟨I.store, F⟩ = ⟨.done (), ⟨I.store, F⟩, [.stderr text]⟩ := by
    show Printed.mk _ _ _ = _
    rw [World.start, hrun]
  refine ⟨⟨text, ?_⟩, ?_, ?_⟩
  · rw [hexec]
    exact List.mem_cons_self ..
  · rw [hexec]
  · rw [hexec]
    exact fun heq => by cases heq

/-- `write_from` a host file that cannot be read does not look at its descriptor. -/
theorem inert_unreadable {path : List UInt8} (hdata : Image.hostData F path = none) :
    (writeToFileFromFile path).Inert n ⟨I.store, F⟩ := by
  apply Inert.of_run (L := []) (T := [])
  refine (Image.Ok.run_writeToFileFromFile_printing path _).trans ?_
  rw [hdata]
  rfl

/-- **Closed descriptors are inert.** -/
theorem inert_closed (h : I.Ok) (hres : I.dt.reservedFd[n]? = some false) (c : DescriptorCall) :
    c.Inert n ⟨I.store, F⟩ := by
  cases c with
  | closeFile => exact .of_run (h.run_closeFile_closed hres)
  | lseekPos pos => exact .of_run (h.run_lseekPos_closed hres pos)
  | readFile size capacity =>
    apply Inert.of_run
    show (Printing.readFile n size capacity >>= fun _ => pure ()).run _ _ = _
    rw [Prog.run_bind, h.run_readFile_closed hres size capacity]
    rfl
  | writeToFile data =>
    apply Inert.of_run
    show (Printing.writeToFile n data >>= fun _ => pure ()).run _ _ = _
    rw [Prog.run_bind, h.run_writeToFile_closed hres data]
    rfl
  | readFileToFile path size =>
    apply Inert.of_run
    refine (h.run_readFileToFile_printing path size).trans ?_
    rw [h.run_readFile_closed hres]
    rfl
  | writeToFileFromFile path =>
    rcases hdata : Image.hostData F path with _ | data
    · exact inert_unreadable hdata
    · apply Inert.of_run
      refine (Image.Ok.run_writeToFileFromFile_printing path _).trans ?_
      simp only [hdata, h.run_writeToFile_closed hres data, follow_done]
      rfl

/-- Past the table only `write_from` returns, on a host file it cannot read. -/
theorem halts_past (h : I.Ok) (hres : I.dt.reservedFd[n]? = none) (c : DescriptorCall) :
    (∃ path, c = .writeToFileFromFile path ∧ Image.hostData F path = none) ∨
      ((c.prog n).exec ⟨I.store, F⟩).outcome = .halted .memoryError := by
  have hhalts : ∀ {m}, (c.prog n).run hostHandler.printing (⟨I.store, F, [], []⟩, []) =
      (.halted .memoryError, m) →
      ((c.prog n).exec ⟨I.store, F⟩).outcome = .halted .memoryError := by
    intro m hrun
    show ((c.prog n).run hostHandler.printing _).1 = _
    rw [World.start, hrun]
  cases c with
  | closeFile => exact Or.inr (hhalts (h.run_closeFile_past hres))
  | lseekPos pos => exact Or.inr (hhalts (h.run_lseekPos_past hres pos))
  | readFile size capacity =>
    apply Or.inr
    apply hhalts
    show (Printing.readFile n size capacity >>= fun _ => pure ()).run _ _ = _
    rw [Prog.run_bind, h.run_readFile_past hres size capacity, follow_halted]
  | writeToFile data =>
    apply Or.inr
    apply hhalts
    show (Printing.writeToFile n data >>= fun _ => pure ()).run _ _ = _
    rw [Prog.run_bind, h.run_writeToFile_past hres data, follow_halted]
  | readFileToFile path size =>
    apply Or.inr
    apply hhalts
    refine (h.run_readFileToFile_printing path size).trans ?_
    rw [h.run_readFile_past hres, follow_halted]
  | writeToFileFromFile path =>
    rcases hdata : Image.hostData F path with _ | data
    · exact Or.inl ⟨path, rfl, hdata⟩
    · apply Or.inr
      apply hhalts
      refine (Image.Ok.run_writeToFileFromFile_printing path _).trans ?_
      simp only [hdata, h.run_writeToFile_past hres data, follow_halted]
      rfl

end DescriptorCall

/-- **Calls on closed descriptors**: a call on a number that is not the number of a reserved
    descriptor is inert exactly below the end of the table, or when it does not get that far. -/
theorem inert_iff {w : World} (hw : Reachable w) {n : Nat} (hn : w.store.Closed n)
    (c : DescriptorCall) :
    c.Inert n w ↔ n < 16 ∨
      ∃ path, c = .writeToFileFromFile path ∧ Image.hostData w.files path = none := by
  obtain ⟨I, hI, hstore⟩ := hw.image
  obtain ⟨F, hF⟩ : ∃ F, F = w.files := ⟨_, rfl⟩
  rw [← hF] at hstore ⊢
  subst hstore
  have hclosed : I.dt.reservedFd[n]? ≠ some true := hn I.dt rfl
  constructor
  · rintro ⟨-, -, hbounds⟩
    by_contra hnot
    obtain ⟨hlt, hdata⟩ := not_or.mp hnot
    have hres := hI.reservedFd_none_iff.mpr (Nat.not_lt.mp hlt)
    rcases DescriptorCall.halts_past hI hres c with hpath | hhalted
    · exact hdata hpath
    · exact hbounds hhalted
  · rintro (hlt | ⟨path, rfl, hdata⟩)
    · refine DescriptorCall.inert_closed hI ?_ c
      rcases hres : I.dt.reservedFd[n]? with _ | reserved
      · exact absurd (hI.reservedFd_none_iff.mp hres) (Nat.not_le.mpr hlt)
      · cases reserved
        · rfl
        · exact absurd hres hclosed
    · exact DescriptorCall.inert_unreadable hdata

/-- Descriptor 1 is closed, and in the table. -/
theorem inert_openedWorld : DescriptorCall.closeFile.Inert 1 openedWorld := by
  refine (inert_iff reachable_openedWorld (n := 1) ?_ .closeFile).mpr (Or.inl (by decide))
  intro dt hdt
  have hnone : ∀ dt ∈ openedWorld.store.descriptorsTable, dt.reservedFd[1]? ≠ some true := by
    decide +kernel
  exact hnone dt hdt

/-- `close 16`: the descriptor is looked up right past the end of the table. -/
theorem close_past_not_inert : ¬ ∀ (w : World) (n : Nat), Reachable w → n < 2 ^ 16 →
    w.store.Closed n → ∀ c : DescriptorCall, c.Inert n w := by
  intro hall
  have hclosed : ∀ dt ∈ openedWorld.store.descriptorsTable, dt.reservedFd[16]? ≠ some true := by
    decide +kernel
  have hinert := hall openedWorld 16 reachable_openedWorld (by decide) hclosed .closeFile
  exact hinert.inBounds (by decide +kernel)

end MiniExt
