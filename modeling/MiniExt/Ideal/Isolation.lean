import MiniExt.Ideal.Sessions
import MiniExt.Input
import MiniExt.Lib.Isolation

namespace MiniExt

open Lib

/-!
# Ideal — descriptors do not interfere

Files are shared by name, but a file is open once, and what is written through one descriptor
touches no other file.  So whoever holds a descriptor gets the same answers, and leaves the same
file, whether or not other commands come in between: creations, listings, other files that are
opened, read, written and closed.

* `Command.isOn`, `Command.spares` — the commands of a descriptor, and those that may come between;
* `Session.run_keeps` — invariants of the file system in sessions;
* `Session.isolates` — sessions keep descriptors apart;
* `descriptors_isolated` — and so does the client.
-/

/-- A command that reads, writes or moves a descriptor. -/
def Command.isOn (fd : Nat) : Command → Bool
  | .read fd' _ | .write fd' _ | .lseek fd' _ | .readTo fd' _ _ => fd' = fd
  | _ => false

/-- A command that keeps a descriptor open and does not write a file of the host to it: such a file
    may be what `read_to` has written for another descriptor. -/
def Command.spares (fd : Nat) : Command → Bool
  | .init => false
  | .close fd' | .writeFrom fd' _ => fd' ≠ fd
  | _ => true

/-! ### The calls of a command -/

/-- A command on the descriptor is a call on it, whatever the files of the host. -/
theorem Command.call_of_isOn {fd : Nat} {c : Command} (hc : c.isOn fd = true) :
    ∃ call, FileSystem.isOn fd call = true ∧ ∀ F, c.call F = some call := by
  cases c with
  | init | readFs | ls | mkdir | touch | «open» | close | writeFrom => cases hc
  | read fd' size => exact ⟨.read fd' size, hc, fun _ => rfl⟩
  | write fd' data => exact ⟨.write fd' data, hc, fun _ => rfl⟩
  | lseek fd' pos => exact ⟨.lseek fd' pos, hc, fun _ => rfl⟩
  | readTo fd' path size => exact ⟨.read fd' (Image.clampSize size), hc, fun _ => rfl⟩

/-- A command that is not on the descriptor, and spares it, is a call that does so. -/
theorem Command.call_of_spares {fd : Nat} {c : Command} (hc : c.isOn fd = false)
    (hspares : c.spares fd = true) {F : HostFiles} {call : FileCall (List UInt8) UInt8}
    (hcall : c.call F = some call) : FileSystem.isOn fd call = false ∧ call ≠ .close fd := by
  cases c with
  | init | readFs => cases hcall
  | ls | mkdir | touch | «open» =>
    cases hcall
    exact ⟨rfl, by rintro ⟨⟩⟩
  | close fd' =>
    cases hcall
    refine ⟨rfl, ?_⟩
    rintro ⟨⟩
    exact of_decide_eq_true hspares rfl
  | read | write | lseek | readTo =>
    cases hcall
    exact ⟨hc, by rintro ⟨⟩⟩
  | writeFrom fd' path =>
    obtain ⟨data, -, rfl⟩ := Option.map_eq_some_iff.mp hcall
    exact ⟨decide_eq_false (of_decide_eq_true hspares), by rintro ⟨⟩⟩

namespace Session

variable {v v' : Session} {x : Command × List UInt8} {fd : Nat}

/-- A command on a file is answered as its call. -/
theorem answer_of_call {call : FileCall (List UInt8) UInt8} (h : x.1.call v.files = some call) :
    service.answer v x = v.answerCall x.1 x.2 call := by
  simp only [service, h]

/-- Any other command is answered by itself. -/
theorem answer_of_alone (h : x.1.call v.files = none) : service.answer v x = v.alone x.1 := by
  simp only [service, h]

/-- What a new file system has and every allowed call keeps, the commands of a session keep. -/
theorem keeps {P : IdealFs → Prop} (hfresh : P (.fresh 127 127))
    (hcalls : ∀ {fs : IdealFs} {call}, P fs → fs.Allowed defaultLimits call →
      P ((FileSystem.service defaultLimits).answer fs call).2)
    (hv : P v.fs) (hx : v.Allowed x) : P (service.answer v x).2.fs := by
  rcases hcall : x.1.call v.files with _ | call
  · rw [answer_of_alone hcall]
    obtain ⟨c, data⟩ := x
    cases c with
    | init => exact hfresh
    | readFs | ls | mkdir | touch | «open» | close | write | writeFrom | read | readTo | lseek =>
      exact hv
  · rw [answer_of_call hcall]
    exact hcalls hv (hx.2.2 call hcall)

/-- **Every session** from a new file system has it. -/
theorem run_keeps {P : IdealFs → Prop} (hfresh : P (.fresh 127 127))
    (hcalls : ∀ {fs : IdealFs} {call}, P fs → fs.Allowed defaultLimits call →
      P ((FileSystem.service defaultLimits).answer fs call).2)
    {cs : List (Command × List UInt8)} {F : HostFiles}
    (hallowed : service.Allows Allowed cs (fresh F)) : P (service.run cs (fresh F)).2.fs :=
  hallowed.keeps (P := fun v => P v.fs) (fun hv hx => keeps hfresh hcalls hv hx) hfresh

/-- No command changes where the image is. -/
theorem isImage_answer (v : Session) (x : Command × List UInt8) :
    (service.answer v x).2.files.isImage = v.files.isImage := by
  obtain ⟨c, data⟩ := x
  rcases hcall : c.call v.files with _ | call
  · rw [answer_of_alone hcall]
    cases c <;> rfl
  · rw [answer_of_call hcall]
    show (c.filesAfter v.files _).isImage = _
    unfold Command.filesAfter
    split
    · rfl
    · rfl

/-- To the descriptor the two sessions are the same, and the image is at the same paths. -/
structure Alike (fd : Nat) (v v' : Session) : Prop where
  agrees : FileSystem.Agrees fd v.fs v'.fs
  sound : v.fs.Sound defaultLimits
  isImage : v.files.isImage = v'.files.isImage

/-- **Sessions keep descriptors apart.** -/
theorem isolates (fd : Nat) : service.Isolates (fun x => x.1.isOn fd)
    (fun v x => v.Allowed x ∧ x.1.spares fd = true) (Alike fd) where
  own := by
    rintro v v' ⟨c, data⟩ ⟨hagrees, hsound, hpaths⟩ ⟨⟨hform, himage, hallowed⟩, hspares⟩ hmine
    obtain ⟨call, hon, hcall⟩ := Command.call_of_isOn hmine
    obtain ⟨hallowed', hreply, hagrees'⟩ := hagrees.own hon (hallowed call (hcall _))
    have hpaths' := (isImage_answer v (c, data)).trans
      (hpaths.trans (isImage_answer v' (c, data)).symm)
    rw [answer_of_call (hcall v.files), answer_of_call (hcall v'.files)] at hpaths' ⊢
    refine ⟨⟨⟨hform, ?_, ?_⟩, hspares⟩, ?_, hagrees', hsound.answer call, hpaths'⟩
    · rwa [Command.namesImage_congr hpaths.symm]
    · intro call' hcall'
      obtain rfl : call' = call := Option.some.inj (hcall'.symm.trans (hcall _))
      exact hallowed'
    · simp only [answerCall, hreply]
  other := by
    rintro v v' ⟨c, data⟩ ⟨hagrees, hsound, hpaths⟩ ⟨hallowed, hspares⟩ hother
    refine ⟨?_, keeps (FileSystem.sound_fresh 127 127) (fun h _ => h.answer _) hsound hallowed,
      (isImage_answer v (c, data)).trans hpaths⟩
    rcases hcall : c.call v.files with _ | call
    · rw [answer_of_alone hcall]
      cases c with
      | init => cases hspares
      | readFs | ls | mkdir | touch | «open» | close | write | writeFrom | read | readTo | lseek =>
        exact hagrees
    · rw [answer_of_call hcall]
      obtain ⟨hoff, hclose⟩ := Command.call_of_spares hother hspares hcall
      exact hagrees.other hsound hoff hclose

end Session

/-- **Descriptors do not interfere.**  In a session of the client from a new image, after some
    commands that open a file as `fd`, take any commands that spare the descriptor: those on it are
    answered as if they were the only ones, and leave its file and position as if they were. -/
theorem descriptors_isolated (w : World) {before cs : List (Command × List UInt8)} {fd : Nat}
    (hallowed : Session.service.Allows Session.Allowed (before ++ cs) (.fresh w.files))
    (hopen : ((Session.service.run before (.fresh w.files)).2.fs.file fd).isSome)
    (hspares : ∀ x ∈ cs, x.1.spares fd = true) :
    client.answersTo (fun x => x.1.isOn fd) cs (client.run before (w.step .init)).2 =
        (client.run (cs.filter fun x => x.1.isOn fd) (client.run before (w.step .init)).2).1 ∧
      ∃ v v' : Session, (client.run cs (client.run before (w.step .init)).2).2.Shows v ∧
        (client.run (cs.filter fun x => x.1.isOn fd)
          (client.run before (w.step .init)).2).2.Shows v' ∧
        v'.fs.file fd = v.fs.file fd ∧ (v.fs.file fd).isSome := by
  obtain ⟨hbefore, hcs⟩ := Service.allows_append.mp hallowed
  have hstart : (client.run before (w.step .init)).2.Shows
      (Session.service.run before (.fresh w.files)).2 :=
    (client_implements.run (shows_init w) hbefore).2
  have hsound : (Session.service.run before (.fresh w.files)).2.fs.Sound defaultLimits :=
    Session.run_keeps (FileSystem.sound_fresh 127 127) (fun h _ => h.answer _) hbefore
  -- the user of the descriptor alone
  obtain ⟨hfiltered, hanswers, hend⟩ := (Session.isolates fd).run
    ⟨⟨hopen, rfl, Nat.le_refl _⟩, hsound, rfl⟩ (Service.allows_and.mpr ⟨hcs, hspares⟩)
  have halone := client_implements.run hstart (Service.allows_and.mp hfiltered).1
  refine ⟨?_, _, _, (client_implements.run hstart hcs).2, halone.2, hend.agrees.file,
    hend.agrees.isOpen⟩
  rw [client_implements.answersTo _ hstart hcs, hanswers, halone.1]

/-- `touch /a`, `touch /b`, `open /a`, `open /b`. -/
def twoFiles : List (Command × List UInt8) :=
  [.touch (bufferLine [slash, 97]), .touch (bufferLine [slash, 98]),
    .open (bufferLine [slash, 97]), .open (bufferLine [slash, 98])].map fun c =>
      (c, List.replicate 256 0)

/-- `write 0 hi`, `write 1 no`, `mkdir /c`, `lseek 0 0`, `close 1`, `read 0 2`. -/
def twoUsers : List (Command × List UInt8) :=
  [.write 0 [104, 105], .write 1 [110, 111], .mkdir (bufferLine [slash, 99]), .lseek 0 0,
    .close 1, .read 0 2].map fun c => (c, List.replicate 256 0)

/-- The first user reads back what it has written. -/
theorem descriptors_isolated_twoUsers :
    client.answersTo (fun x => x.1.isOn 0) twoUsers
          (client.run twoFiles ((⟨.blank, .onlyImage⟩ : World).step .init)).2 =
        (client.run (twoUsers.filter fun x => x.1.isOn 0)
          (client.run twoFiles ((⟨.blank, .onlyImage⟩ : World).step .init)).2).1 ∧
      ∃ v v' : Session, (client.run twoUsers
          (client.run twoFiles ((⟨.blank, .onlyImage⟩ : World).step .init)).2).2.Shows v ∧
        (client.run (twoUsers.filter fun x => x.1.isOn 0)
          (client.run twoFiles ((⟨.blank, .onlyImage⟩ : World).step .init)).2).2.Shows v' ∧
        v'.fs.file 0 = v.fs.file 0 ∧ (v.fs.file 0).isSome :=
  descriptors_isolated ⟨.blank, .onlyImage⟩ (by decide) (by decide) (by decide)

end MiniExt
