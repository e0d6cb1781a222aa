import MiniExt.Dispatch
import MiniExt.Runs.Basic

namespace MiniExt

open Lib

/-!
# The grammar of the client

The help text gives each command a form: a word, then its arguments, one space before each.
The client cuts arguments off one by one and looks at no more than it needs, so it runs many
lines that have no such form.

* `fields`, `CommandWord.accepts`, `MatchesGrammar` — the grammar of the help text;
* `CommandWord.lacks`, `Rejectable` — the lines the client rejects;
* `FollowsGrammar` — a line outside the grammar is rejected, and a line acts on its descriptor;
* `followsGrammar_iff` — the client follows the grammar on the lines of these two kinds alone.
-/

/-! ### The grammar -/

/-- The parts of a line between its spaces. -/
def fields (line : CString) : List (List UInt8) := line.bytes.splitOn space

/-- A decimal number: digits, at least one. -/
def IsDecimal (text : List UInt8) : Prop := text ≠ [] ∧ ∀ b ∈ text, isDigit b

/-- A decimal number below `2 ^ 16`. -/
def IsFd (text : List UInt8) : Prop := IsDecimal text ∧ decimalValue text < 2 ^ 16

/-- The arguments the help text gives a command. -/
def CommandWord.accepts : CommandWord → List (List UInt8) → Prop
  | .help, [] | .quit, [] | .init, [] | .readFs, [] => True
  | .ls, [path] | .mkdir, [path] | .touch, [path] | .open, [path] => path ≠ []
  | .close, [fd] => IsFd fd
  | .write, [fd, data] => IsFd fd ∧ data ≠ []
  | .writeFrom, [fd, path] | .readTo, [fd, path] => IsFd fd ∧ path ≠ []
  | .readTo, [fd, path, size] => IsFd fd ∧ path ≠ [] ∧ IsDecimal size
  | .read, [fd, size] => IsFd fd ∧ IsDecimal size
  | .lseek, [fd, pos] => IsFd fd ∧ IsDecimal pos
  | _, _ => False

/-- The line has the form of a command. -/
def MatchesGrammar (line : CString) : Prop :=
  ∃ word args, fields line = CommandWord.text word :: args ∧ word.accepts args

/-- Arguments the branch of a command misses: none where it asks for one, or an empty last
    one.  `read` does not look whether it has any. -/
def CommandWord.lacks : CommandWord → List (List UInt8) → Prop
  | .help, _ | .quit, _ | .init, _ | .readFs, _ => False
  | .ls, args | .mkdir, args | .touch, args | .open, args | .close, args =>
    args = [] ∨ args = [[]]
  | .write, args | .writeFrom, args | .readTo, args | .lseek, args =>
    args = [] ∨ (∃ fd, args = [fd]) ∨ ∃ fd, args = [fd, []]
  | .read, args => (∃ fd, args = [fd]) ∨ ∃ fd, args = [fd, []]

/-- The line starts with no command word, or misses an argument. -/
def Rejectable (line : CString) : Prop :=
  ∃ command args, fields line = command :: args ∧
    ∀ word, findWord command = some word → word.lacks args

/-! ### The property -/

/-- The path of the image that a command is given. -/
def Command.path? : Command → Option (List UInt8)
  | .ls path | .mkdir path | .touch path | .open path => some path.bytes
  | _ => none

/-- The descriptor a command acts on. -/
def Command.fd? : Command → Option Nat
  | .close fd | .write fd _ | .writeFrom fd _ | .read fd _ | .readTo fd _ _ | .lseek fd _ =>
    some fd
  | _ => none

/-- The line names a descriptor: its second field is a decimal number. -/
def NamesFd (line : CString) (n : Nat) : Prop :=
  ∃ command fd args, fields line = command :: fd :: args ∧ IsDecimal fd ∧ decimalValue fd = n

/-- On a line outside the grammar the client prints a message and nothing else: the image
    stays, `parse_command` is not given `NULL`, and no empty path is taken apart.  On any line,
    the client acts on the descriptor the line names. -/
structure FollowsGrammar (w : World) (line : CString) : Prop where
  rejects : ¬ MatchesGrammar line → (w.turn line).1 = .rejected ∧ (w.turn line).2 = w
  notNull : ¬ MatchesGrammar line → (w.turn line).1 ≠ .memoryError
  notEmpty : ¬ MatchesGrammar line → ∀ c, (w.turn line).1 = .run c → c.path? ≠ some []
  sameFd : ∀ n c fd, NamesFd line n → (w.turn line).1 = .run c → c.fd? = some fd → fd = n

/-! ### Fields -/

/-- The fields of a string that may be `NULL`. -/
def argsOf : Option CString → List (List UInt8)
  | none => []
  | some s => fields s

/-- **`parse_command`** cuts off the first field. -/
theorem fields_parseCommand (s : CString) :
    fields s = (parseCommand s).1.bytes :: argsOf (parseCommand s).2 := by
  unfold parseCommand
  rcases hspace : strchr s.bytes space 0 with _ | pos
  · exact List.splitOn_eq_singleton (strchr_eq_none hspace)
  · obtain ⟨hfirst, hsplit⟩ := strchr_split hspace
    calc s.bytes.splitOn space
        = (s.bytes.take pos ++ space :: s.bytes.drop (pos + 1)).splitOn space := by rw [← hsplit]
      _ = s.bytes.take pos :: (s.bytes.drop (pos + 1)).splitOn space :=
        List.splitOn_append_cons_self_of_not_mem hfirst _

/-- There is at least one field. -/
theorem fields_ne_nil (s : CString) : fields s ≠ [] := List.splitOn_ne_nil _ _

/-- There is one empty field where there is nothing. -/
theorem fields_eq_nil_iff (s : CString) : fields s = [[]] ↔ s.bytes = [] := by
  constructor
  · intro h
    rw [fields_parseCommand, List.cons.injEq] at h
    unfold parseCommand at h
    rcases hspace : strchr s.bytes space 0 with _ | pos
    · rw [hspace] at h
      exact h.1
    · rw [hspace] at h
      exact absurd h.2 (fields_ne_nil _)
  · intro h
    unfold fields
    rw [h]
    rfl

/-! ### Rejected lines -/

/-- The guard rejects, or the branch decides. -/
theorem requireArg_cases (arg : Option CString) (branch : CString → Dispatch) :
    requireArg arg branch = .rejected ∨ ∃ s, arg = some s ∧ requireArg arg branch = branch s := by
  cases arg with
  | none => exact .inl rfl
  | some s =>
    unfold requireArg
    by_cases hempty : s.bytes = []
    · exact .inl (if_pos hempty)
    · exact .inr ⟨s, rfl, if_neg hempty⟩

/-- With a descriptor and a path `read_to` runs. -/
theorem readToBranch_eq (fd : Nat) (s : CString) :
    ∃ path size, readToBranch fd s = .run (.readTo fd path size) := by
  unfold readToBranch
  dsimp only
  split
  · exact ⟨_, _, rfl⟩
  · split
    · exact ⟨_, _, rfl⟩
    · exact ⟨_, _, rfl⟩

/-- An argument is rejected when it is missing or empty, or by its branch. -/
theorem requireArg_eq_rejected_iff (arg : Option CString) (branch : CString → Dispatch) :
    requireArg arg branch = .rejected ↔
      argsOf arg = [] ∨ argsOf arg = [[]] ∨ ∃ s, arg = some s ∧ branch s = .rejected := by
  cases arg with
  | none => exact iff_of_true rfl (.inl rfl)
  | some s =>
    unfold requireArg argsOf
    rw [fields_eq_nil_iff]
    by_cases hempty : s.bytes = []
    · simp only [hempty, if_true]
      exact iff_of_true trivial (.inr (.inl trivial))
    · simp only [hempty, if_false]
      constructor
      · intro h
        exact .inr (.inr ⟨s, rfl, h⟩)
      · rintro (hnil | hfalse | ⟨s', heq, h⟩)
        · exact absurd hnil (fields_ne_nil s)
        · exact hfalse.elim
        · cases heq
          exact h

/-- A branch with one argument, which runs a command. -/
theorem requireArg_run_iff (arg : Option CString) (command : CString → Command) :
    requireArg arg (fun s => .run (command s)) = .rejected ↔
      argsOf arg = [] ∨ argsOf arg = [[]] := by
  rw [requireArg_eq_rejected_iff]
  constructor
  · rintro (h | h | ⟨s, -, hrun⟩)
    · exact .inl h
    · exact .inr h
    · cases hrun
  · rintro (h | h)
    · exact .inl h
    · exact .inr (.inl h)

/-- A branch with a descriptor and a second argument, which does not reject them. -/
theorem fdBranch_eq_rejected_iff {branch : Nat → CString → Dispatch}
    (hbranch : ∀ fd s, branch fd s ≠ .rejected) (s : CString) :
    fdBranch branch s = .rejected ↔ (∃ fd, fields s = [fd]) ∨ ∃ fd, fields s = [fd, []] := by
  unfold fdBranch
  rw [fields_parseCommand s]
  generalize parseCommand s = parsed
  obtain ⟨fd, rest⟩ := parsed
  show requireArg rest (branch (parseNumber 16 fd)) = .rejected ↔ _
  rw [requireArg_eq_rejected_iff]
  constructor
  · rintro (h | h | ⟨s', -, hrejected⟩)
    · exact .inl ⟨fd.bytes, by rw [h]⟩
    · exact .inr ⟨fd.bytes, by rw [h]⟩
    · exact absurd hrejected (hbranch _ _)
  · rintro (⟨fd', h⟩ | ⟨fd', h⟩)
    · exact .inl (List.cons.inj h).2
    · exact .inr (.inl (List.cons.inj h).2)

/-- A branch with a descriptor rejects when one of two arguments is missing. -/
theorem requireArg_fdBranch_iff {branch : Nat → CString → Dispatch}
    (hbranch : ∀ fd s, branch fd s ≠ .rejected) (arg : Option CString) :
    requireArg arg (fdBranch branch) = .rejected ↔
      argsOf arg = [] ∨ (∃ fd, argsOf arg = [fd]) ∨ ∃ fd, argsOf arg = [fd, []] := by
  rw [requireArg_eq_rejected_iff]
  constructor
  · rintro (h | h | ⟨s, rfl, h⟩)
    · exact .inl h
    · exact .inr (.inl ⟨[], h⟩)
    · exact .inr ((fdBranch_eq_rejected_iff hbranch s).mp h)
  · rintro (h | h)
    · exact .inl h
    · cases arg with
      | none => exact .inl rfl
      | some s => exact .inr (.inr ⟨s, rfl, (fdBranch_eq_rejected_iff hbranch s).mpr h⟩)

/-- The branch of `read_to` rejects nothing. -/
theorem readToBranch_ne_rejected (fd : Nat) (s : CString) : readToBranch fd s ≠ .rejected := by
  obtain ⟨path, size, hrun⟩ := readToBranch_eq fd s
  rw [hrun]
  exact Dispatch.noConfusion

/-- **A branch rejects** exactly the arguments it misses. -/
theorem branch_eq_rejected_iff (word : CommandWord) (arg : Option CString) :
    branch word arg = .rejected ↔ word.lacks (argsOf arg) := by
  cases word with
  | help => exact iff_of_false Dispatch.noConfusion id
  | init => exact iff_of_false Dispatch.noConfusion id
  | readFs => exact iff_of_false Dispatch.noConfusion id
  | quit => exact iff_of_false Dispatch.noConfusion id
  | ls => exact requireArg_run_iff arg _
  | mkdir => exact requireArg_run_iff arg _
  | touch => exact requireArg_run_iff arg _
  | «open» => exact requireArg_run_iff arg _
  | close => exact requireArg_run_iff arg _
  | write => exact requireArg_fdBranch_iff (fun _ _ => Dispatch.noConfusion) arg
  | writeFrom => exact requireArg_fdBranch_iff (fun _ _ => Dispatch.noConfusion) arg
  | readTo => exact requireArg_fdBranch_iff readToBranch_ne_rejected arg
  | lseek => exact requireArg_fdBranch_iff (fun _ _ => Dispatch.noConfusion) arg
  | read =>
    cases arg with
    | none =>
      refine iff_of_false Dispatch.noConfusion ?_
      rintro (⟨fd, h⟩ | ⟨fd, h⟩)
      · cases h
      · cases h
    | some s =>
      exact @fdBranch_eq_rejected_iff
        (fun fd arg => .run (.read fd (parseNumber 32 (parseCommand arg).1)))
        (fun _ _ => Dispatch.noConfusion) s

/-- A line with a command word is dispatched by the branch of the word. -/
theorem dispatch_of_word {line : CString} {word : CommandWord}
    (h : findWord (parseCommand line).1.bytes = some word) :
    dispatch line = branch word (parseCommand line).2 := by
  unfold dispatch
  dsimp only
  rw [h]

/-- **The client rejects** a line exactly if it starts with no command word or misses an
    argument. -/
theorem dispatch_eq_rejected_iff (line : CString) :
    dispatch line = .rejected ↔ Rejectable line := by
  unfold dispatch Rejectable
  rw [fields_parseCommand line]
  generalize parseCommand line = parsed
  obtain ⟨command, arg⟩ := parsed
  dsimp only
  rcases hword : findWord command.bytes with _ | word
  · refine iff_of_true rfl ⟨command.bytes, argsOf arg, rfl, ?_⟩
    intro word hsome
    rw [hword] at hsome
    cases hsome
  · dsimp only
    rw [branch_eq_rejected_iff]
    constructor
    · intro hlacks
      refine ⟨command.bytes, argsOf arg, rfl, ?_⟩
      intro word' hsome
      rw [hword, Option.some_inj] at hsome
      rwa [← hsome]
    · rintro ⟨command', args, heq, hlacks⟩
      obtain ⟨rfl, rfl⟩ := List.cons.inj heq
      exact hlacks word hword

/-! ### Descriptors -/

/-- `strtol` reads a decimal number. -/
theorem strtol_decimal {text : List UInt8} (h : IsDecimal text) :
    strtol text = min (decimalValue text : Int) (2 ^ 63 - 1) := by
  obtain ⟨hne, hdigits⟩ := h
  obtain ⟨d, ds, rfl⟩ := List.exists_cons_of_ne_nil hne
  have hd : isDigit d := hdigits d List.mem_cons_self
  have hall : (d :: ds).takeWhile isDigit = d :: ds := List.takeWhile_eq_self_iff.mpr hdigits
  -- a digit is neither white space nor a sign
  have hrange : 48 ≤ d.toNat ∧ d.toNat ≤ 57 := by
    simp only [isDigit, decide_eq_true_eq] at hd
    exact ⟨UInt8.le_iff_toNat_le.mp hd.1, UInt8.le_iff_toNat_le.mp hd.2⟩
  have hspace : ¬ isSpace d := by
    simp only [isSpace, decide_eq_true_eq, UInt8.le_iff_toNat_le, ← UInt8.toNat_inj]
    have h32 : (32 : UInt8).toNat = 32 := rfl
    have h9 : (9 : UInt8).toNat = 9 := rfl
    have h13 : (13 : UInt8).toNat = 13 := rfl
    omega
  have hdrop : (d :: ds).dropWhile isSpace = d :: ds := List.dropWhile_cons_of_neg hspace
  unfold strtol
  rw [hdrop]
  split
  · next digits heq =>
    obtain ⟨rfl, -⟩ := List.cons.inj heq
    exact absurd hrange.1 (by decide)
  · next digits heq =>
    obtain ⟨rfl, -⟩ := List.cons.inj heq
    exact absurd hrange.1 (by decide)
  · next digits hminus hplus =>
    show min (decimalValue ((d :: ds).takeWhile isDigit) : Int) _ = _
    rw [hall]

/-- A descriptor of the grammar is read as it is. -/
theorem parseNumber_fd {text : CString} (h : IsFd text.bytes) :
    parseNumber 16 text = decimalValue text.bytes := by
  obtain ⟨hdecimal, hlt⟩ := h
  unfold parseNumber
  rw [strtol_decimal hdecimal]
  omega

/-- What runs a command has its argument. -/
theorem requireArg_eq_run {arg : Option CString} {f : CString → Dispatch} {c : Command}
    (h : requireArg arg f = .run c) : ∃ s, arg = some s ∧ f s = .run c := by
  rcases requireArg_cases arg f with hrejected | ⟨s, harg, heq⟩
  · rw [hrejected] at h
    cases h
  · exact ⟨s, harg, heq.symm.trans h⟩

/-- The descriptor a branch acts on is its first argument. -/
theorem requireArg_fdBranch_run {branch : Nat → CString → Dispatch}
    (hbranch : ∀ fd s c, branch fd s = .run c → c.fd? = some fd) {s : CString} {c : Command}
    (h : fdBranch branch s = .run c) :
    ∃ fd args, fields s = fd.bytes :: args ∧ c.fd? = some (parseNumber 16 fd) := by
  refine ⟨(parseCommand s).1, argsOf (parseCommand s).2, fields_parseCommand s, ?_⟩
  obtain ⟨arg, -, hrun⟩ := requireArg_eq_run h
  exact hbranch _ _ _ hrun

/-- The branch of `read_to` acts on the descriptor it was given. -/
theorem readToBranch_fd {fd : Nat} {s : CString} {c : Command} (h : readToBranch fd s = .run c) :
    c.fd? = some fd := by
  obtain ⟨path, size, hrun⟩ := readToBranch_eq fd s
  cases hrun.symm.trans h
  rfl

/-- The commands on a descriptor. -/
def CommandWord.takesFd : CommandWord → Bool
  | .close | .write | .writeFrom | .read | .readTo | .lseek => true
  | _ => false

/-- **The descriptor** a command acts on is what `strtol` makes of the second field. -/
theorem fd_of_branch {word : CommandWord} {arg : Option CString} {c : Command} {n : Nat}
    (hrun : branch word arg = .run c) (hn : c.fd? = some n) :
    word.takesFd ∧ ∃ fd args, argsOf arg = CString.bytes fd :: args ∧ n = parseNumber 16 fd := by
  -- a branch with a descriptor parses its first field
  have hfd : ∀ {b : Nat → CString → Dispatch}, (∀ fd s c, b fd s = .run c → c.fd? = some fd) →
      ∀ {arg}, requireArg arg (fdBranch b) = .run c →
      ∃ fd args, argsOf arg = CString.bytes fd :: args ∧ n = parseNumber 16 fd := by
    intro b hb arg h
    obtain ⟨s, rfl, hs⟩ := requireArg_eq_run h
    obtain ⟨fd, args, hfields, hc⟩ := requireArg_fdBranch_run hb hs
    rw [hn, Option.some_inj] at hc
    exact ⟨fd, args, hfields, hc⟩
  -- a branch with a path has none
  have hpath : ∀ {f : CString → Command}, (∀ s, (f s).fd? = none) → pathBranch f arg ≠ .run c := by
    intro f hf h
    obtain ⟨s, -, hs⟩ := requireArg_eq_run h
    cases hs
    rw [hf] at hn
    cases hn
  cases word with
  | help => cases hrun
  | init =>
    cases hrun
    cases hn
  | readFs =>
    cases hrun
    cases hn
  | quit => cases hrun
  | ls => exact absurd hrun (hpath fun _ => rfl)
  | mkdir => exact absurd hrun (hpath fun _ => rfl)
  | touch => exact absurd hrun (hpath fun _ => rfl)
  | «open» => exact absurd hrun (hpath fun _ => rfl)
  | close =>
    obtain ⟨s, rfl, hs⟩ := requireArg_eq_run hrun
    cases hs
    cases hn
    exact ⟨rfl, _, _, fields_parseCommand s, rfl⟩
  | write =>
    refine ⟨rfl, hfd ?_ hrun⟩
    rintro fd s c ⟨⟩
    rfl
  | writeFrom =>
    refine ⟨rfl, hfd ?_ hrun⟩
    rintro fd s c ⟨⟩
    rfl
  | lseek =>
    refine ⟨rfl, hfd ?_ hrun⟩
    rintro fd s c ⟨⟩
    rfl
  | readTo => exact ⟨rfl, hfd (fun _ _ _ => readToBranch_fd) hrun⟩
  | read =>
    -- `read` parses its size from what follows the descriptor
    cases arg with
    | none => cases hrun
    | some s =>
      obtain ⟨fd, args, hfields, hc⟩ := @requireArg_fdBranch_run
        (fun fd arg => .run (.read fd (parseNumber 32 (parseCommand arg).1)))
        (by
          rintro fd s c ⟨⟩
          rfl) _ _ hrun
      rw [hn, Option.some_inj] at hc
      exact ⟨rfl, fd, args, hfields, hc⟩

/-- Where the grammar has a descriptor it is one. -/
theorem CommandWord.accepts_isFd {word : CommandWord} {fd : List UInt8} {args : List (List UInt8)}
    (hword : word.takesFd) (h : word.accepts (fd :: args)) : IsFd fd := by
  cases word with
  | help | init | readFs | ls | quit | mkdir | touch | «open» =>
    exact absurd hword Bool.false_ne_true
  | close =>
    rcases args with _ | ⟨second, args⟩
    · exact h
    · exact h.elim
  | write | writeFrom | read | lseek =>
    rcases args with _ | ⟨second, _ | ⟨third, args⟩⟩
    · exact h.elim
    · exact h.1
    · exact h.elim
  | readTo =>
    rcases args with _ | ⟨second, _ | ⟨third, _ | ⟨fourth, args⟩⟩⟩
    · exact h.elim
    · exact h.1
    · exact h.1
    · exact h.elim

/-- **The chain of `strcmp`s** finds every word. -/
theorem findWord_text (word : CommandWord) : findWord word.text = some word := by
  cases word <;> decide

/-! ### Where the client follows its grammar -/

/-- A turn starts with the dispatch of its line. -/
theorem World.turn_fst (w : World) (line : CString) : (w.turn line).1 = dispatch line := by
  unfold World.turn
  split
  · next c hc => exact hc.symm
  · rfl

/-- A rejected line leaves the world as it is. -/
theorem World.turn_rejected {w : World} {line : CString} (h : dispatch line = .rejected) :
    w.turn line = (.rejected, w) := by
  unfold World.turn
  rw [h]

/-- **The client follows its grammar** exactly on the lines of the grammar, and on those that
    start with no command word or miss an argument. -/
theorem followsGrammar_iff (w : World) (line : CString) :
    FollowsGrammar w line ↔ MatchesGrammar line ∨ Rejectable line := by
  constructor
  · intro h
    by_cases hmatches : MatchesGrammar line
    · exact .inl hmatches
    · right
      rw [← dispatch_eq_rejected_iff, ← w.turn_fst]
      exact (h.rejects hmatches).1
  · rintro (hmatches | hrejectable)
    · refine ⟨fun h => absurd hmatches h, fun h => absurd hmatches h,
        fun h => absurd hmatches h, ?_⟩
      intro n c m hnames hrun hm
      obtain ⟨word, args, hfields, haccepts⟩ := hmatches
      have hcut := fields_parseCommand line
      rw [hfields] at hcut
      obtain ⟨hcommand, hargs⟩ := List.cons.inj hcut
      have hbranch : branch word (parseCommand line).2 = .run c := by
        rw [w.turn_fst, dispatch_of_word] at hrun
        · exact hrun
        · rw [← hcommand, findWord_text]
      obtain ⟨htakes, fd, rest, hfd, rfl⟩ := fd_of_branch hbranch hm
      rw [← hargs] at hfd
      rw [hfd] at haccepts hfields
      -- the line names the same field
      obtain ⟨command, fd', args', hnamed, -, rfl⟩ := hnames
      rw [hfields] at hnamed
      obtain ⟨-, hrest⟩ := List.cons.inj hnamed
      obtain ⟨rfl, -⟩ := List.cons.inj hrest
      exact parseNumber_fd (CommandWord.accepts_isFd htakes haccepts)
    · have hrejected :=
        World.turn_rejected (w := w) ((dispatch_eq_rejected_iff line).mpr hrejectable)
      rw [← dispatch_eq_rejected_iff] at hrejectable
      constructor
      · intro _
        rw [hrejected]
        exact ⟨rfl, rfl⟩
      · intro _
        rw [hrejected]
        exact Dispatch.noConfusion
      · intro _ c hrun
        rw [hrejected] at hrun
        cases hrun
      · intro n c m _ hrun
        rw [hrejected] at hrun
        cases hrun

/-- The line `close 65536`. -/
def wrappedLine : CString :=
  ⟨[99, 108, 111, 115, 101, 32, 54, 53, 53, 51, 54], by decide⟩

/-- On any image `close 65536` closes descriptor 0, and `read` alone passes `NULL` to
    `parse_command`. -/
theorem not_followsGrammar_wrapped :
    Reachable ((World.mk .blank .onlyImage).step .init) ∧
      ¬ FollowsGrammar ((World.mk .blank .onlyImage).step .init) wrappedLine ∧
      ¬ FollowsGrammar ((World.mk .blank .onlyImage).step .init)
        ⟨CommandWord.read.text, by decide⟩ := by
  refine ⟨Reachable.init _, ?_, ?_⟩
  · intro h
    have hnames : NamesFd wrappedLine 65536 :=
      ⟨CommandWord.close.text, [54, 53, 53, 51, 54], [], by decide,
        ⟨by decide, List.all_eq_true.mp rfl⟩, rfl⟩
    have hrun : dispatch wrappedLine = .run (.close 0) := rfl
    have hsame := h.sameFd 65536 (.close 0) 0 hnames ((World.turn_fst _ _).trans hrun) rfl
    exact absurd hsame (by decide)
  · intro h
    have hmatches : ¬ MatchesGrammar ⟨CommandWord.read.text, by decide⟩ := by
      rintro ⟨word, args, hfields, haccepts⟩
      have hcut : fields ⟨CommandWord.read.text, by decide⟩ = [CommandWord.read.text] := by decide
      rw [hcut] at hfields
      obtain ⟨htext, rfl⟩ := List.cons.inj hfields
      have hword : word = .read := by
        have hfind := findWord_text word
        rw [← htext, findWord_text, Option.some_inj] at hfind
        exact hfind.symm
      rw [hword] at haccepts
      exact haccepts
    exact h.notNull hmatches ((World.turn_fst _ _).trans rfl)

end MiniExt
