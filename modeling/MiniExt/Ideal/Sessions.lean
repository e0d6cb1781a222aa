import MiniExt.Ideal.Creation
import MiniExt.Ideal.Files
import MiniExt.Ideal.Listing

namespace MiniExt

open Lib

/-!
# Ideal — sessions

The client works on an image; its user sees a file system.  A session is what the user sees: a
file system, the files of the host, and for each command what the client says.

* `namesOf` — the names in a path;
* `Command.call`, `Session.service` — a session;
* `Session.Allowed` — the commands a session answers;
* `client_implements` — the client answers them in the same way, one at a time;
* `client_run` — and in every run from a new image.
-/

/-! ### Paths -/

instance (c : List UInt8) : Decidable (IsComponent c) :=
  decidable_of_iff (c ≠ [] ∧ c.length + 2 ≤ defaultFsInfo.maxPathLen ∧ slash ∉ c ∧ 0 ∉ c)
    ⟨fun ⟨hne, hlen, hslash, hz⟩ => ⟨hne, hlen, hslash, hz⟩,
      fun h => ⟨h.nonempty, h.short, h.noSlash, h.nulFree⟩⟩

/-- The names in a path: its components, but for the empty one after a trailing slash. -/
def namesOf (path : List UInt8) : List (List UInt8) :=
  if (components path).getLast? = some [] then (components path).dropLast else components path

/-- An absolute path of names that fit their fields. -/
def IsNames (path : List UInt8) : Prop :=
  path.head? = some slash ∧ ∀ c ∈ namesOf path, IsComponent c

instance (path : List UInt8) : Decidable (IsNames path) :=
  inferInstanceAs (Decidable (_ ∧ ∀ c ∈ _, _))

/-- The path of some components is what they are when slashes stand between them. -/
theorem pathOf_eq_intercalate {names : List (List UInt8)} (hne : names ≠ []) :
    pathOf names false = slash :: [slash].intercalate names := by
  induction names with
  | nil => exact absurd rfl hne
  | cons c names ih =>
    cases names with
    | nil => simp [pathOf]
    | cons c' names => rw [pathOf, ih (List.cons_ne_nil _ _)]; simp

/-- **An absolute path** is the path of its names. -/
theorem eq_pathOf {path : List UInt8} (habs : path.head? = some slash) :
    ∃ trailing, path = pathOf (namesOf path) trailing ∧ (namesOf path ≠ [] ∨ trailing = true) := by
  obtain ⟨t, rfl⟩ : ∃ t, path = slash :: t := by
    cases path with
    | nil => cases habs
    | cons x t =>
      obtain rfl : x = slash := Option.some.inj habs
      exact ⟨t, rfl⟩
  have hne : components (slash :: t) ≠ [] := components_ne_nil _
  have hjoin : slash :: t = pathOf (components (slash :: t)) false := by
    rw [pathOf_eq_intercalate hne]
    exact congrArg _ (List.intercalate_splitOn slash).symm
  unfold namesOf
  split
  · rename_i hlast
    refine ⟨true, ?_, Or.inr rfl⟩
    have hsplit := List.dropLast_append_getLast? [] hlast
    calc slash :: t
      _ = pathOf ((components (slash :: t)).dropLast ++ [[]]) false := by rw [hsplit, ← hjoin]
      _ = pathOf (components (slash :: t)).dropLast true := by
        rw [pathOf_append, pathOf_trailing]
        rfl
  · exact ⟨false, hjoin, Or.inl hne⟩

/-- The last name of a path. -/
def lastName (path : List UInt8) : List UInt8 := (namesOf path).getLast?.getD []

/-- A path with a name leads into its parent. -/
theorem IsNames.split {path : List UInt8} (hpath : IsNames path) (hne : namesOf path ≠ []) :
    ∃ trailing, path = pathOf ((namesOf path).dropLast ++ [lastName path]) trailing ∧
      (∀ c ∈ (namesOf path).dropLast, IsComponent c) ∧ IsComponent (lastName path) := by
  obtain ⟨trailing, heq, _⟩ := eq_pathOf hpath.1
  have hlast : (namesOf path).getLast? = some (lastName path) := by
    rw [lastName, List.getLast?_eq_some_getLast hne, Option.getD_some]
  have hsplit := List.dropLast_append_getLast? _ hlast
  refine ⟨trailing, by rwa [hsplit], fun c hc => hpath.2 c (List.mem_of_mem_dropLast hc), ?_⟩
  exact hpath.2 _ (List.mem_of_getLast? hlast)

/-! ### Sessions -/

/-- What the user of the client sees. -/
structure Session where
  fs : IdealFs
  files : HostFiles

/-- The call of the file system that a command makes. -/
def Command.call (F : HostFiles) : Command → Option (FileCall (List UInt8) UInt8)
  | .init | .readFs => none
  | .ls path => some (.ls (namesOf path.bytes))
  | .mkdir path => some (.mkdir (namesOf path.bytes).dropLast (lastName path.bytes))
  | .touch path => some (.touch (namesOf path.bytes).dropLast (lastName path.bytes))
  | .open path => some (.open (namesOf path.bytes).dropLast (lastName path.bytes))
  | .close fd => some (.close fd)
  | .write fd data => some (.write fd data)
  | .writeFrom fd path => (Image.hostData F path.bytes).map (.write fd)
  | .read fd size => some (.read fd size)
  | .readTo fd _ size => some (.read fd (Image.clampSize size))
  | .lseek fd pos => some (.lseek fd pos)

/-- What is said of an answer. -/
def replyText : FileReply (List UInt8) UInt8 → List Output
  | .done => []
  | .listing entries => listingText entries
  | .descriptor fd => Printing.openedText fd
  | .data got => Printing.readText got
  | .count n => Printing.writtenText n

/-- What the client adds to it, with `data` in the buffer of `read` from before. -/
def Command.closing (data : List UInt8) : Command → FileReply (List UInt8) UInt8 → List Output
  | .read _ size, .data got =>
    [.stdout "Readed: %s\n"
      [.string (((memcpy data 0 (got.getD [])).set size 0).takeWhile (· ≠ 0))]]
  | .readTo _ path _, .data (some got) =>
    [.stdout "Written %zd to %s\n" [.number got.length, .string path.bytes]]
  | _, _ => []

/-- The files of the host after an answer: only `read_to` writes one. -/
def Command.filesAfter (F : HostFiles) : Command → FileReply (List UInt8) UInt8 → HostFiles
  | .readTo _ path _, .data (some got) => overwrite F path.bytes got
  | _, _ => F

namespace Session

/-- A new file system: all inodes and blocks but one are free. -/
def fresh (F : HostFiles) : Session := ⟨.fresh 127 127, F⟩

/-- The commands without a call: `init` and `read_fs`, and `write_from` without its file. -/
def alone (v : Session) : Command → List Output × Session
  | .init => ([.stdout "Initializing fs\n" []], fresh v.files)
  | .readFs => ([.stdout "Reading fs\n" []], v)
  | _ => ([], v)

/-- The other commands. -/
def answerCall (v : Session) (c : Command) (data : List UInt8)
    (call : FileCall (List UInt8) UInt8) : List Output × Session :=
  let r := (FileSystem.service defaultLimits).answer v.fs call
  (replyText r.1 ++ c.closing data r.1, ⟨r.2, c.filesAfter v.files r.1⟩)

/-- Sessions: a command comes with what is in the buffer of `read`. -/
def service : Service Session (Command × List UInt8) (List Output) where
  answer v x :=
    match x.1.call v.files with
    | some call => v.answerCall x.1 x.2 call
    | none => v.alone x.1

end Session

/-- A command whose paths are names, and whose buffer has a place for the terminator. -/
def Command.WellFormed : Command → Prop
  | .ls path => IsNames path.bytes
  | .mkdir path | .touch path | .open path =>
    IsNames path.bytes ∧ namesOf path.bytes ≠ [] ∧ path.bytes.length < bufferLength
  | .read _ size => size < commandBufferLength
  | _ => True

/-- The commands that a session answers: none of them is given the image as a host file. -/
def Session.Allowed (v : Session) (x : Command × List UInt8) : Prop :=
  x.1.WellFormed ∧ ¬ x.1.NamesImage v.files ∧
    ∀ call ∈ x.1.call v.files, v.fs.Allowed defaultLimits call

instance (c : Command) : Decidable c.WellFormed := by
  cases c <;> unfold Command.WellFormed <;> infer_instance

instance (v : Session) (x : Command × List UInt8) : Decidable (v.Allowed x) :=
  inferInstanceAs (Decidable (_ ∧ _ ∧ ∀ call ∈ x.1.call v.files, _))

/-- The client: how a command ends, and what it says. -/
def client : Service World (Command × List UInt8) (Outcome Stop Unit × List Output) where
  answer w x :=
    let r := (x.1.print x.2).exec w
    ((r.outcome, r.output.filter Output.isResult), r.world)

/-- The user of a world sees this session. -/
def World.Shows (w : World) (v : Session) : Prop :=
  ∃ I : Image, I.Tidy ∧ I.Models v.fs ∧ w = ⟨I.store, v.files⟩

/-! ### Programs -/

/-- From a world the program ends with `a`, says `said` and leaves a world that shows session
    `v`. -/
def Printing.Leaves {α : Type} (p : Printing α) (w : World) (a : α) (said : List Output)
    (v : Session) : Prop :=
  ∃ (K : Image) (L : List Handle) (T : List Store), K.Tidy ∧ K.Models v.fs ∧
    p.Utters hostHandler Output.isResult w.start a said ⟨K.store, v.files, L, T⟩

namespace Printing.Leaves

variable {α β : Type} {p : Printing α} {f : α → Printing β} {w : World} {a : α} {b : β}
  {said more : List Output} {v : Session}

/-- A last part that only speaks. -/
theorem bind (hp : p.Leaves w a said v)
    (hf : ∀ m, (f a).Utters hostHandler Output.isResult m b more m) :
    (p >>= f).Leaves w b (said ++ more) v := by
  obtain ⟨K, L, T, ht, hm, hrun⟩ := hp
  exact ⟨K, L, T, ht, hm, hrun.bind (hf _)⟩

/-- A result that is not used. -/
theorem discard (hp : p.Leaves w a said v) :
    (p >>= fun _ => pure ()).Leaves w () said v := by
  have h := hp.bind (f := fun _ => pure ()) fun m => Prog.utters_pure () m
  rwa [List.append_nil] at h

/-- Nothing more is said. -/
theorem said_nil (hp : p.Leaves w a said v) : p.Leaves w a (said ++ []) v := by
  rwa [List.append_nil]

/-- A first part that leaves everything as it is. -/
theorem after {q : Printing β} {g : β → Printing α}
    (hq : q.Utters hostHandler Output.isResult w.start b [] w.start)
    (hp : (g b).Leaves w a said v) : (q >>= g).Leaves w a said v := by
  obtain ⟨K, L, T, ht, hm, hrun⟩ := hp
  exact ⟨K, L, T, ht, hm, hq.bind hrun⟩

/-- The answer of the client. -/
theorem answer {c : Command} {data : List UInt8} (hp : (c.print data).Leaves w () said v) :
    (client.answer w (c, data)).1 = (.done (), said) ∧
      (client.answer w (c, data)).2.Shows v := by
  obtain ⟨K, L, T, ht, hm, hrun⟩ := hp
  obtain ⟨out, hrun, hsaid⟩ := hrun []
  have hexec : (c.print data).exec w = ⟨.done (), ⟨K.store, v.files⟩, out⟩ := by
    rw [exec, hrun]
  refine ⟨?_, K, ht, hm, ?_⟩
  · show (((c.print data).exec w).outcome, ((c.print data).exec w).output.filter _) = _
    rw [hexec]
    exact congrArg _ hsaid
  · exact congrArg Printed.world hexec

end Printing.Leaves

/-! ### New images -/

namespace Image

/-- The root of a new image has no names. -/
theorem namedRecords_formatted : formatted.store.namedRecords rootInodeId = [] := by
  rw [Store.namedRecords, rootInodeId, records_of_block block_formatted]
  rfl

/-- It is a directory. -/
theorem isDir_formatted : formatted.store.IsDir rootInodeId :=
  formatted_ok.directories.tree.root_dir

/-- The root is all there is. -/
theorem locates_formatted {p : List (List UInt8)} {i : Nat} :
    formatted.store.Locates p i ↔ p = [] ∧ i = rootInodeId := by
  rcases List.eq_nil_or_concat p with rfl | ⟨q, c, rfl⟩
  · exact ⟨fun h => ⟨rfl, Eq.symm h⟩, fun ⟨_, h⟩ => Eq.symm h⟩
  · refine iff_of_false (fun h => ?_) (by simp)
    obtain ⟨d, _, hd, r, hr, _⟩ := locates_concat.mp (List.concat_eq_append ▸ h)
    obtain rfl := taken_formatted.1.mp hd.1
    rw [show formatted.store.namedRecords 0 = [] from namedRecords_formatted] at hr
    cases hr

/-- A new image is tidy. -/
theorem tidy_formatted : formatted.Tidy where
  ok := formatted_ok
  distinct := distinct_formatted
  apart := apart_formatted
  snug hi hfile := absurd (taken_formatted.1.mp hi ▸ isDir_formatted) hfile
  inside hent := absurd hent entry_formatted

/-- The root takes one inode and one block. -/
theorem free_formatted : free ((List.replicate 128 false).set 0 true) = 127 := by
  rw [free_set (by decide), free, List.count_replicate_self]

/-- **A new image** shows a new file system. -/
theorem models_formatted : formatted.Models (.fresh 127 127) where
  node p n := by
    simp only [locates_formatted]
    show Function.update (fun _ => none) [] (some (.dir [])) p = some n ↔ _
    by_cases hp : p = []
    · subst hp
      rw [Function.update_self, Option.some.injEq]
      have hroot : formatted.store.nodeOf rootInodeId = .dir [] := by
        rw [Store.nodeOf_dir isDir_formatted, namedRecords_formatted, List.map_nil]
      exact ⟨fun h => ⟨rootInodeId, ⟨rfl, rfl⟩, hroot.trans h⟩, fun ⟨_, ⟨_, hi⟩, h⟩ =>
        hroot.symm.trans (hi ▸ h)⟩
    · rw [Function.update_of_ne hp]
      exact iff_of_false (by rintro ⟨⟩) fun ⟨_, ⟨h, _⟩, _⟩ => hp h
  opened fd p pos := iff_of_false (by rintro ⟨⟩) fun ⟨_, hent, _⟩ => entry_formatted hent
  freeNodes := free_formatted.symm
  freeBlocks := free_formatted.symm

end Image

/-! ### Commands -/

/-- A host file is read unless `get_file_size` takes its size for an error. -/
theorem Image.hostData_eq_some {F : HostFiles} {path data : List UInt8} :
    hostData F path = some data ↔ ∃ buffer, F path = some buffer ∧
      buffer.length % 2 ^ 32 ≠ 2 ^ 32 - 1 ∧ buffer.take (buffer.length % 2 ^ 32) = data := by
  unfold hostData
  rcases F path with _ | buffer <;> simp

/-- A host file has no data when it cannot be read, or has the length that means so. -/
theorem Image.hostData_eq_none {F : HostFiles} {path : List UInt8} :
    hostData F path = none ↔ F path = none ∨
      ∃ buffer, F path = some buffer ∧ buffer.length % 2 ^ 32 = 2 ^ 32 - 1 := by
  unfold hostData
  rcases F path with _ | buffer <;> simp

namespace Image.Models

variable {I : Image} {F : HostFiles} {fs : IdealFs} (hm : I.Models fs) (ht : I.Tidy)

include hm ht

/-- **`ls`.** -/
theorem leaves_ls {path : List UInt8} (hpath : IsNames path) :
    (Printing.ls path).Leaves ⟨I.store, F⟩ () (listingText (fs.list defaultLimits (namesOf path)))
      ⟨fs, F⟩ := by
  obtain ⟨trailing, heq, hne⟩ := eq_pathOf hpath.1
  have hlist := hm.lists (F := F) (T := []) ht hpath.2 hne
  rw [← heq] at hlist
  exact ⟨I, [], [], ht, hm, hlist⟩

/-- **`mkdir`** and **`touch`**. -/
theorem leaves_create (isFile : Bool) {path : CString} {print : Printing Unit}
    (hprint : print.silent = createCommand isFile path.bytes) (hmute : Printing.Mute print)
    (hpath : IsNames path.bytes) (hne : namesOf path.bytes ≠ [])
    (hlen : path.bytes.length < bufferLength)
    (hroom : fs.HasRoom defaultLimits (namesOf path.bytes).dropLast (lastName path.bytes)) :
    print.Leaves ⟨I.store, F⟩ () [] ⟨fs.create defaultLimits (if isFile then .file [] else .dir [])
      (namesOf path.bytes).dropLast (lastName path.bytes), F⟩ := by
  obtain ⟨trailing, heq, hparent, hname⟩ := hpath.split hne
  obtain ⟨L, hrun⟩ := ht.ok.run_create (F := F) isFile path.bytes path.nulFree
  rw [heq] at hlen
  obtain ⟨hout, htidy, hmodels⟩ := hm.created ht isFile hparent hname hlen hroom
  rw [← heq] at hout htidy hmodels
  rw [hout, ← hprint] at hrun
  exact ⟨_, L, _, htidy, hmodels, hmute.utters hrun⟩

/-- **`open`.** -/
theorem leaves_open {path : CString} (hpath : IsNames path.bytes) (hne : namesOf path.bytes ≠ [])
    (hlen : path.bytes.length < bufferLength)
    (hfile : fs.OpensFile defaultLimits (namesOf path.bytes).dropLast (lastName path.bytes)) :
    (Printing.openFile path.bytes).Leaves ⟨I.store, F⟩
      (fs.open defaultLimits (namesOf path.bytes).dropLast (lastName path.bytes)).1
      (Printing.openedText
        (fs.open defaultLimits (namesOf path.bytes).dropLast (lastName path.bytes)).1)
      ⟨(fs.open defaultLimits (namesOf path.bytes).dropLast (lastName path.bytes)).2, F⟩ := by
  obtain ⟨trailing, heq, hparent, hname⟩ := hpath.split hne
  obtain ⟨L, T, hrun⟩ := ht.ok.run_openFile (F := F) path.bytes path.nulFree
  rw [heq] at hlen
  obtain ⟨hout, htidy, hmodels⟩ := hm.opens ht hparent hname hlen hfile
  rw [← heq] at hout htidy hmodels
  rw [hout, ← Printing.silent_openFile] at hrun
  exact ⟨_, L, T, htidy, hmodels, Prog.Says.utters (fun _ => Printing.says_openFile _) hrun⟩

/-- **`close`.** -/
theorem leaves_close {fd : Nat} (hfd : fd < defaultLimits.descriptors) :
    (Printing.closeFile fd).Leaves ⟨I.store, F⟩ () [] ⟨fs.close fd, F⟩ := by
  obtain ⟨L, T, hrun⟩ := ht.ok.run_closeFile (F := F) fd
  obtain ⟨hout, htidy, hmodels⟩ := hm.closes ht hfd
  rw [hout, ← Printing.silent_closeFile] at hrun
  exact ⟨_, L, T, htidy, hmodels, (Printing.mute_closeFile fd).utters hrun⟩

/-- **`lseek`.** -/
theorem leaves_lseek {fd pos : Nat} (hfd : fd < defaultLimits.descriptors)
    (hinside : fs.SeeksInside defaultLimits fd pos) :
    (Printing.lseekPos fd pos).Leaves ⟨I.store, F⟩ () [] ⟨fs.lseek defaultLimits fd pos, F⟩ := by
  obtain ⟨L, T, hrun⟩ := ht.ok.run_lseekPos (F := F) fd pos
  obtain ⟨hout, htidy, hmodels⟩ := hm.seeks ht hfd hinside
  rw [hout, ← Printing.silent_lseekPos] at hrun
  exact ⟨_, L, T, htidy, hmodels, (Printing.mute_lseekPos fd pos).utters hrun⟩

/-- **`write`.** -/
theorem leaves_write {fd : Nat} {data : List UInt8} (hfd : fd < defaultLimits.descriptors)
    (hfits : fs.Fits defaultLimits fd data) :
    (Printing.writeToFile fd data).Leaves ⟨I.store, F⟩ (fs.write defaultLimits fd data).1
      (Printing.writtenText (fs.write defaultLimits fd data).1)
      ⟨(fs.write defaultLimits fd data).2, F⟩ := by
  obtain ⟨L, hrun⟩ := ht.ok.run_writeToFile (F := F) fd data
  obtain ⟨hout, htidy, hmodels⟩ := hm.writes ht hfd hfits
  rw [hout, ht.ok.write_store, ← Printing.silent_writeToFile] at hrun
  exact ⟨_, L, _, htidy, hmodels, Prog.Says.utters (fun _ => Printing.says_writeToFile _ _) hrun⟩

/-- **`read_file`.** -/
theorem leaves_read {fd size capacity : Nat} (hfd : fd < defaultLimits.descriptors)
    (hcap : min size 968 ≤ capacity) (hinside : fs.EndsInside defaultLimits fd size) :
    (Printing.readFile fd size capacity).Leaves ⟨I.store, F⟩ (fs.read fd size).1
      (Printing.readText (fs.read fd size).1) ⟨(fs.read fd size).2, F⟩ := by
  obtain ⟨L, T, hrun⟩ := ht.ok.run_readFile (F := F) (T := []) fd size capacity
  obtain ⟨hout, htidy, hmodels⟩ := hm.reads ht hfd hcap hinside
  rw [hout, ← Printing.silent_readFile] at hrun
  exact ⟨_, L, T, htidy, hmodels, Prog.Says.utters (fun _ => Printing.says_readFile _ _ _) hrun⟩

/-- **The `read` of the client**, into a buffer that has room for the terminator. -/
theorem leaves_readCommand {fd size : Nat} (data : List UInt8)
    (hfd : fd < defaultLimits.descriptors) (hsize : size < commandBufferLength)
    (hinside : fs.EndsInside defaultLimits fd size) :
    (Printing.readCommand fd size data).Leaves ⟨I.store, F⟩ ()
      (Printing.readText (fs.read fd size).1 ++
        (Command.read fd size).closing data (.data (fs.read fd size).1))
      ⟨(fs.read fd size).2, F⟩ := by
  refine (hm.leaves_read ht hfd ?_ hinside).bind fun m => ?_
  · exact le_trans (Nat.min_le_left _ _) (Nat.le_of_lt hsize)
  · dsimp only
    rw [if_neg (Nat.not_le.mpr hsize)]
    exact Prog.utters_print rfl m

/-- **`write_from`**: what can be read of a host file is written. -/
theorem leaves_writeFrom {fd : Nat} {path data : List UInt8} (hdata : hostData F path = some data)
    (hfd : fd < defaultLimits.descriptors) (hfits : fs.Fits defaultLimits fd data) :
    (Printing.writeToFileFromFile fd path).Leaves ⟨I.store, F⟩ ()
      (Printing.writtenText (fs.write defaultLimits fd data).1)
      ⟨(fs.write defaultLimits fd data).2, F⟩ := by
  have hread := Printing.utters_liftM (run_readHostFile path (⟨I.store, F⟩ : World).start)
  obtain ⟨buffer, hF, hsize, rfl⟩ := hostData_eq_some.mp hdata
  rw [show (⟨I.store, F⟩ : World).start.files path = some buffer from hF] at hread
  refine Printing.Leaves.after hread ?_
  dsimp only
  rw [if_neg hsize]
  exact (hm.leaves_write ht hfd hfits).discard

/-- What cannot be read is not. -/
theorem leaves_writeFrom_none {fd : Nat} {path : List UInt8} (hdata : hostData F path = none) :
    (Printing.writeToFileFromFile fd path).Leaves ⟨I.store, F⟩ () [] ⟨fs, F⟩ := by
  have hread := Printing.utters_liftM (run_readHostFile path (⟨I.store, F⟩ : World).start)
  have hstay : ∀ {p : Printing Unit}, Printing.Mute p → p.silent = pure () →
      p.Leaves ⟨I.store, F⟩ () [] ⟨fs, F⟩ := fun hmute hsilent =>
    ⟨I, [], [], ht, hm, hmute.utters (by rw [hsilent]; rfl)⟩
  have hsaid : ∀ text, (eprint text >>= fun _ => pure ()).Leaves ⟨I.store, F⟩ () []
      ⟨fs, F⟩ := fun text =>
    hstay ((Printing.mute_eprint _).seq fun _ => Printing.mute_pure _) rfl
  obtain hF | ⟨buffer, hF, hsize⟩ := hostData_eq_none.mp hdata
  all_goals
    rw [show (⟨I.store, F⟩ : World).start.files path = _ from hF] at hread
    refine Printing.Leaves.after hread ?_
    dsimp only
  · exact hsaid _
  · rw [if_pos hsize]
    exact hsaid _

/-- **`read_to`**: what is read goes to a host file. -/
theorem leaves_readTo {fd : Nat} {path : CString} {size : Option Nat} (data : List UInt8)
    (hpath : F.isImage path.bytes = false) (hfd : fd < defaultLimits.descriptors)
    (hinside : fs.EndsInside defaultLimits fd (clampSize size)) :
    (Printing.readFileToFile fd path.bytes size).Leaves ⟨I.store, F⟩ ()
      (Printing.readText (fs.read fd (clampSize size)).1 ++
        (Command.readTo fd path size).closing data (.data (fs.read fd (clampSize size)).1))
      ⟨(fs.read fd (clampSize size)).2,
        (Command.readTo fd path size).filesAfter F (.data (fs.read fd (clampSize size)).1)⟩ := by
  have h := ht.ok
  have henter : Printing.enter.Utters hostHandler Output.isResult (⟨I.store, F⟩ : World).start I.sb
      [] ⟨I.store, F, [.superblock, .image], []⟩ :=
    Printing.mute_enter.utters (by rw [Printing.silent_enter]; exact h.run_enter)
  have hleave := Printing.utters_liftM (run_leave (S := I.store) (F := F) (T := []))
  obtain ⟨K, L, T, htidy, hmodels, hread⟩ :=
    hm.leaves_read (F := F) ht hfd (Nat.min_le_left (clampSize size) 968) hinside
  refine ⟨K, L, T, htidy, hmodels, henter.bind (hleave.bind ?_)⟩
  -- the size that is asked for
  have hsize : ∀ n, n = clampSize size → (Printing.readFile fd n n).Utters hostHandler
      Output.isResult (⟨I.store, F⟩ : World).start (fs.read fd (clampSize size)).1
      (Printing.readText (fs.read fd (clampSize size)).1) ⟨K.store, F, L, T⟩ := by
    rintro n rfl
    exact hread
  refine (hsize _ ?_).bind ?_
  · rw [h.layout.geometry]
    cases size with
    | none => rfl
    | some size => rfl
  · generalize (fs.read fd (clampSize size)).1 = r
    cases r with
    | none => exact Prog.utters_pure () _
    | some got =>
      refine (Prog.utters_lift (run_writeHostFile got (by exact hpath))).bind ?_
      exact (Prog.utters_print rfl _).bind (Prog.utters_pure () _)

/-- **`read_fs`** looks at the superblock. -/
theorem leaves_readFs :
    (Command.readFs.print []).Leaves ⟨I.store, F⟩ () [.stdout "Reading fs\n" []] ⟨fs, F⟩ :=
  ⟨I, [], [], ht, hm, (Prog.utters_print rfl _).bind
    (Printing.mute_readFs.utters (by rw [Printing.silent_readFs]; exact ht.ok.run_readFs))⟩

end Image.Models

/-- **`init`**, in every world. -/
theorem leaves_init (w : World) (data : List UInt8) :
    (Command.init.print data).Leaves w () [.stdout "Initializing fs\n" []] (.fresh w.files) :=
  ⟨formatted, [], _, Image.tidy_formatted, Image.models_formatted, (Prog.utters_print rfl _).bind
    (Printing.mute_initFs.utters (by rw [Printing.silent_initFs]; exact run_initFs w.store))⟩

/-! ### Every command -/

/-- **One command**: the client says what the session says, and leaves what it leaves. -/
theorem World.Shows.leaves {w : World} {v : Session} (hw : w.Shows v) {c : Command}
    {data : List UInt8} (hc : v.Allowed (c, data)) :
    (c.print data).Leaves w () (Session.service.answer v (c, data)).1
      (Session.service.answer v (c, data)).2 := by
  obtain ⟨I, ht, hm, rfl⟩ := hw
  obtain ⟨hform, himage, hcall⟩ := hc
  cases c with
  | init => exact leaves_init _ data
  | readFs => exact hm.leaves_readFs ht
  | ls path => exact (hm.leaves_ls ht hform).said_nil
  | mkdir path =>
    obtain ⟨hpath, hne, hlen⟩ := hform
    exact hm.leaves_create ht false (Printing.silent_createDir _) (Printing.mute_createDir _) hpath
      hne hlen (hcall _ rfl)
  | touch path =>
    obtain ⟨hpath, hne, hlen⟩ := hform
    exact hm.leaves_create ht true (Printing.silent_createFile _) (Printing.mute_createFile _)
      hpath hne hlen (hcall _ rfl)
  | «open» path =>
    obtain ⟨hpath, hne, hlen⟩ := hform
    exact (hm.leaves_open ht hpath hne hlen (hcall _ rfl)).discard.said_nil
  | close fd => exact hm.leaves_close ht (hcall _ rfl)
  | write fd data =>
    obtain ⟨hfd, hfits⟩ := hcall _ rfl
    exact (hm.leaves_write ht hfd hfits).discard.said_nil
  | writeFrom fd path =>
    unfold Session.service
    simp only [Command.call] at hcall ⊢
    rcases hdata : Image.hostData v.files path.bytes with _ | content
    · exact hm.leaves_writeFrom_none ht hdata
    · rw [hdata] at hcall
      obtain ⟨hfd, hfits⟩ := hcall _ rfl
      exact (hm.leaves_writeFrom ht hdata hfd hfits).said_nil
  | read fd size =>
    obtain ⟨hfd, hinside⟩ := hcall _ rfl
    exact hm.leaves_readCommand ht data hfd hform hinside
  | readTo fd path size =>
    obtain ⟨hfd, hinside⟩ := hcall _ rfl
    exact hm.leaves_readTo ht data (Bool.eq_false_iff.mpr himage) hfd hinside
  | lseek fd pos =>
    obtain ⟨hfd, hinside⟩ := hcall _ rfl
    exact hm.leaves_lseek ht hfd hinside

/-- **The client implements sessions.** -/
theorem client_implements :
    Implements client Session.service Session.Allowed (fun said => (.done (), said))
      World.Shows where
  step hw hc := (hw.leaves hc).answer

/-! ### Runs -/

/-- A new image shows a new session. -/
theorem shows_init (w : World) : (w.step .init).Shows (.fresh w.files) :=
  ⟨formatted, Image.tidy_formatted, Image.models_formatted, step_init w⟩

/-- **In every run** from a new image the client says what the session says, command by command,
    and what it leaves shows what the session leaves. -/
theorem client_run (w : World) {cs : List (Command × List UInt8)}
    (hcs : Session.service.Allows Session.Allowed cs (.fresh w.files)) :
    (client.run cs (w.step .init)).1 =
        (Session.service.run cs (.fresh w.files)).1.map (fun said => (.done (), said)) ∧
      (client.run cs (w.step .init)).2.Shows (Session.service.run cs (.fresh w.files)).2 :=
  client_implements.run (shows_init w) hcs

/-- `mkdir /a`, `touch /a/f`, `open /a/f`, `write 0 hi`, `lseek 0 1`, `read 0 1`, `ls /a`. -/
def exampleSession : List (Command × List UInt8) :=
  [.mkdir ⟨[slash, 97], by decide⟩, .touch ⟨[slash, 97, slash, 102], by decide⟩,
    .open ⟨[slash, 97, slash, 102], by decide⟩, .write 0 [104, 105], .lseek 0 1, .read 0 1,
    .ls ⟨[slash, 97], by decide⟩].map fun c => (c, List.replicate 256 0)

/-- The last byte that was written is read, and the file is listed. -/
theorem client_run_example : (client.run exampleSession
    ((⟨.blank, .onlyImage⟩ : World).step .init)).1 =
      [(.done (), []), (.done (), []),
        (.done (), [.stdout "opened fd: %d\n" [.number 0]]),
        (.done (), [.stdout "Total written: %d\n" [.number 2]]),
        (.done (), []),
        (.done (), [.stdout "Total readed: %d\n" [.number 1],
          .stdout "Readed: %s\n" [.string [105]]]),
        (.done (), [.stdout "%s" [.string [46]], .stdout "\n" [],
          .stdout "%s" [.string [46, 46]], .stdout "\n" [],
          .stdout "%s" [.string [102]], .stdout " -- file" [], .stdout "\n" []])] :=
  (client_run ⟨.blank, .onlyImage⟩ (by decide)).1.trans (by decide)

end MiniExt
