import MiniExt.Input
import MiniExt.Properties.Grammar

namespace MiniExt

open Lib

/-!
# Command lines

Every command has a line: its word, then its arguments, one space before each, numbers in decimal
digits.  The client reads the line of a command back as that command, as long as the arguments
survive being cut at spaces and stored in variables of a fixed width; and no other command comes
from a line of the grammar.

* `decimalText` — a number in decimal digits;
* `Command.word`, `Command.args`, `Command.line` — the line of a command;
* `Command.Typeable`, `Command.OneLine` — the commands that have one, and one for the buffer;
* `dispatch_line` — the line of a command runs that command;
* `runs_of_branch` — a line of the grammar runs such a command, and is not shorter than its own;
* `typeable_iff` — these are the commands that lines of the grammar run.
-/

/-! ### Numbers -/

/-- A number in decimal digits. -/
def decimalText (n : Nat) : List UInt8 := (Nat.toDigits 10 n).map fun c => c.toNat.toUInt8

/-- The byte of a digit is the digit. -/
theorem toNat_digit {c : Char} (h : c.isDigit) : c.toNat.toUInt8.toNat = c.toNat := by
  have hrange : 48 ≤ c.toNat ∧ c.toNat ≤ 57 := Char.isDigit_iff_toNat.mp h
  rw [Nat.toUInt8, UInt8.toNat_ofNat']
  omega

/-- The digits of a number are a decimal number. -/
theorem isDecimal_decimalText (n : Nat) : IsDecimal (decimalText n) := by
  constructor
  · unfold decimalText
    rw [ne_eq, List.map_eq_nil_iff]
    exact Nat.toDigits_ne_nil
  · intro b hb
    obtain ⟨c, hc, rfl⟩ := List.mem_map.mp hb
    have hdigit := Nat.isDigit_of_mem_toDigits (by decide) (by decide) hc
    have hrange := Char.isDigit_iff_toNat.mp hdigit
    have hnat := toNat_digit hdigit
    simp only [isDigit, decide_eq_true_eq, UInt8.le_iff_toNat_le, hnat]
    exact hrange

/-- **The digits of a number** denote it. -/
theorem decimalValue_decimalText (n : Nat) : decimalValue (decimalText n) = n := by
  have hfold : ∀ (cs : List Char) (m : Nat), (∀ c ∈ cs, c.isDigit) →
      (cs.map fun c => c.toNat.toUInt8).foldl (fun n d => 10 * n + (d.toNat - 48)) m =
        Nat.ofDigitChars 10 cs m := by
    intro cs
    induction cs with
    | nil => intro m _; rw [Nat.ofDigitChars_nil]; rfl
    | cons c cs ih =>
      intro m hcs
      obtain ⟨hc, hcs⟩ := List.forall_mem_cons.mp hcs
      rw [List.map_cons, List.foldl_cons, ih _ hcs, Nat.ofDigitChars_cons, toNat_digit hc]
      rfl
  rw [decimalValue, decimalText, hfold _ _ fun c hc =>
    Nat.isDigit_of_mem_toDigits (by decide) (by decide) hc]
  exact Nat.ofDigitChars_ten_toDigits

/-- A number that fits a variable is read from its digits. -/
theorem parseNumber_decimalText {text : CString} {width n : Nat} (h : text.bytes = decimalText n)
    (hwidth : width ≤ 32) (hn : n < 2 ^ width) : parseNumber width text = n := by
  have hle : 2 ^ width ≤ 2 ^ 32 := Nat.pow_le_pow_right (by decide) hwidth
  have hmin : min (n : Int) (2 ^ 63 - 1) = n := by omega
  rw [parseNumber, h, strtol_decimal (isDecimal_decimalText n), decimalValue_decimalText, hmin]
  have hmod : (n : Int) % 2 ^ width = n := by
    apply Int.emod_eq_of_lt
    · omega
    · exact_mod_cast hn
  rw [hmod, Int.toNat_natCast]

/-- A number that was read fits its variable. -/
theorem parseNumber_lt (width : Nat) (text : CString) : parseNumber width text < 2 ^ width := by
  have hpos : (0 : Int) < 2 ^ width := Int.pow_pos (by decide)
  have hlt := Int.emod_lt_of_pos (strtol text.bytes) hpos
  rw [parseNumber, Int.toNat_lt (Int.emod_nonneg _ (Int.ne_of_gt hpos))]
  exact_mod_cast hlt

/-! ### The line of a command -/

/-- The word of a command. -/
def Command.word : Command → CommandWord
  | .init => .init
  | .readFs => .readFs
  | .ls _ => .ls
  | .mkdir _ => .mkdir
  | .touch _ => .touch
  | .open _ => .open
  | .close _ => .close
  | .write _ _ => .write
  | .writeFrom _ _ => .writeFrom
  | .read _ _ => .read
  | .readTo _ _ _ => .readTo
  | .lseek _ _ => .lseek

/-- Its arguments. -/
def Command.args : Command → List (List UInt8)
  | .init | .readFs => []
  | .ls path | .mkdir path | .touch path | .open path => [path.bytes]
  | .close fd => [decimalText fd]
  | .write fd data => [decimalText fd, data]
  | .writeFrom fd path => [decimalText fd, path.bytes]
  | .read fd size => [decimalText fd, decimalText size]
  | .readTo fd path none => [decimalText fd, path.bytes]
  | .readTo fd path (some size) => [decimalText fd, path.bytes, decimalText size]
  | .lseek fd pos => [decimalText fd, decimalText pos]

/-- The word and the arguments, with spaces between them. -/
def Command.line (c : Command) : List UInt8 := [space].intercalate (c.word.text :: c.args)

/-- A text that is one argument. -/
def IsArgument (text : List UInt8) : Prop := text ≠ [] ∧ space ∉ text ∧ 0 ∉ text

instance (text : List UInt8) : Decidable (IsArgument text) :=
  inferInstanceAs (Decidable (_ ∧ _ ∧ _))

/-- The commands that have a line: texts are arguments, numbers fit the variables of the client. -/
def Command.Typeable : Command → Prop
  | .init | .readFs => True
  | .ls path | .mkdir path | .touch path | .open path => IsArgument path.bytes
  | .close fd => fd < 2 ^ 16
  | .write fd data => fd < 2 ^ 16 ∧ IsArgument data
  | .writeFrom fd path => fd < 2 ^ 16 ∧ IsArgument path.bytes
  | .read fd size => fd < 2 ^ 16 ∧ size < 2 ^ 32
  | .readTo fd path size => fd < 2 ^ 16 ∧ IsArgument path.bytes ∧ ∀ n ∈ size, n < 2 ^ 32
  | .lseek fd pos => fd < 2 ^ 16 ∧ pos < 2 ^ 32

/-- A line that `fgets` reads whole: it fits the buffer, with its newline and the terminator. -/
def FitsBuffer (line : List UInt8) : Prop :=
  newline ∉ line ∧ line.length + 1 < commandBufferLength

/-- The line of a command fits the buffer. -/
def Command.OneLine (c : Command) : Prop := FitsBuffer c.line

instance (c : Command) : Decidable c.OneLine := inferInstanceAs (Decidable (_ ∧ _))

/-! ### Fields -/

/-- What `parse_command` cuts off has no space. -/
theorem space_not_mem_parseCommand (s : CString) : space ∉ (parseCommand s).1.bytes := by
  unfold parseCommand
  rcases hspace : strchr s.bytes space 0 with _ | pos
  · exact strchr_eq_none hspace
  · exact (strchr_split hspace).1

/-- The first field, when it is not empty, is an argument. -/
theorem isArgument_parseCommand {s : CString} (hne : (parseCommand s).1.bytes ≠ []) :
    IsArgument (parseCommand s).1.bytes :=
  ⟨hne, space_not_mem_parseCommand s, (parseCommand s).1.nulFree⟩

/-- A number is an argument. -/
theorem decimalText_isArgument (n : Nat) : IsArgument (decimalText n) := by
  obtain ⟨hne, hdigits⟩ := isDecimal_decimalText n
  have hno : ∀ b, isDigit b = false → b ∉ decimalText n := by
    intro b hb hmem
    have hdigit := hdigits b hmem
    rw [hb] at hdigit
    cases hdigit
  exact ⟨hne, hno _ (by decide), hno _ (by decide)⟩

/-- A command word is an argument. -/
theorem CommandWord.text_isArgument (word : CommandWord) : IsArgument word.text := by
  cases word <;> decide

/-- The arguments of a command that has a line are arguments. -/
theorem Command.Typeable.isArgument {c : Command} (hc : c.Typeable) :
    ∀ text ∈ c.args, IsArgument text := by
  have hnumber := decimalText_isArgument
  cases c with
  | init | readFs => exact List.forall_mem_nil _
  | ls path | mkdir path | touch path | «open» path => exact List.forall_mem_singleton.mpr hc
  | close fd => exact List.forall_mem_singleton.mpr (hnumber fd)
  | write fd data =>
    exact List.forall_mem_cons.mpr ⟨hnumber fd, List.forall_mem_singleton.mpr hc.2⟩
  | writeFrom fd path =>
    exact List.forall_mem_cons.mpr ⟨hnumber fd, List.forall_mem_singleton.mpr hc.2⟩
  | read fd size =>
    exact List.forall_mem_cons.mpr ⟨hnumber fd, List.forall_mem_singleton.mpr (hnumber size)⟩
  | lseek fd pos =>
    exact List.forall_mem_cons.mpr ⟨hnumber fd, List.forall_mem_singleton.mpr (hnumber pos)⟩
  | readTo fd path size =>
    cases size with
    | none => exact List.forall_mem_cons.mpr ⟨hnumber fd, List.forall_mem_singleton.mpr hc.2.1⟩
    | some size =>
      refine List.forall_mem_cons.mpr ⟨hnumber fd, List.forall_mem_cons.mpr ⟨hc.2.1, ?_⟩⟩
      exact List.forall_mem_singleton.mpr (hnumber size)

/-- **The fields of the line** are the word and the arguments. -/
theorem Command.Typeable.splitOn_line {c : Command} (hc : c.Typeable) :
    c.line.splitOn space = c.word.text :: c.args := by
  refine List.splitOn_intercalate space ?_ (List.cons_ne_nil _ _)
  refine List.forall_mem_cons.mpr ⟨c.word.text_isArgument.2.1, ?_⟩
  exact fun text h => (hc.isArgument text h).2.1

/-- What is in a line is a separator or in a field. -/
theorem mem_intercalate {sep : List UInt8} {texts : List (List UInt8)} {b : UInt8}
    (h : b ∈ sep.intercalate texts) : b ∈ sep ∨ ∃ text ∈ texts, b ∈ text := by
  induction texts with
  | nil => exact absurd h List.not_mem_nil
  | cons text texts ih =>
    cases texts with
    | nil => exact .inr ⟨text, List.mem_singleton_self _, by simpa using h⟩
    | cons text' texts =>
      rw [List.intercalate_cons_cons, List.mem_append, List.mem_append] at h
      rcases h with (h | h) | h
      · exact .inr ⟨text, List.mem_cons_self, h⟩
      · exact .inl h
      · refine (ih h).imp_right ?_
        rintro ⟨other, hmem, hb⟩
        exact ⟨other, List.mem_cons_of_mem _ hmem, hb⟩

/-- The line of a command has no zero byte. -/
theorem Command.Typeable.zero_not_mem_line {c : Command} (hc : c.Typeable) : 0 ∉ c.line := by
  intro hzero
  rcases mem_intercalate hzero with hsep | ⟨text, htext, hmem⟩
  · exact absurd hsep (by decide)
  · rcases List.mem_cons.mp htext with rfl | hargs
    · exact c.word.text_isArgument.2.2 hmem
    · exact (hc.isArgument text hargs).2.2 hmem

/-! ### The branches -/

/-- The parts that `parse_command` makes of a string with these fields. -/
theorem parseCommand_of_fields {s : CString} {first : List UInt8} {rest : List (List UInt8)}
    (h : fields s = first :: rest) :
    (parseCommand s).1.bytes = first ∧ argsOf (parseCommand s).2 = rest :=
  List.cons.inj ((fields_parseCommand s).symm.trans h)

/-- A string with a field that is not empty is not empty. -/
theorem bytes_ne_nil_of_fields {s : CString} {first : List UInt8} {rest : List (List UInt8)}
    (h : fields s = first :: rest) (hne : first ≠ []) : s.bytes ≠ [] := by
  intro hempty
  have hfields := (fields_eq_nil_iff s).mpr hempty
  exact hne (List.cons.inj (h.symm.trans hfields)).1

/-- A branch gets its first field, and what is left for the others. -/
theorem requireArg_of_args {arg : Option CString} {first : List UInt8} {rest : List (List UInt8)}
    (harg : argsOf arg = first :: rest) (hne : first ≠ []) (f : CString → Dispatch) :
    ∃ s, requireArg arg f = f s ∧ (parseCommand s).1.bytes = first ∧
      argsOf (parseCommand s).2 = rest := by
  cases arg with
  | none => cases harg
  | some s =>
    obtain ⟨hfirst, hrest⟩ := parseCommand_of_fields harg
    exact ⟨s, if_neg (bytes_ne_nil_of_fields harg hne), hfirst, hrest⟩

/-- A branch with a descriptor gets its number, the second field, and what is left. -/
theorem fdBranch_of_args {s : CString} {fd : Nat} {second : List UInt8} {rest : List (List UInt8)}
    (hfd : fd < 2 ^ 16) (hfirst : (parseCommand s).1.bytes = decimalText fd)
    (hrest : argsOf (parseCommand s).2 = second :: rest) (hne : second ≠ [])
    (f : Nat → CString → Dispatch) :
    ∃ t, fdBranch f s = f fd t ∧ (parseCommand t).1.bytes = second ∧
      argsOf (parseCommand t).2 = rest := by
  have hnumber := parseNumber_decimalText hfirst (by decide) hfd
  obtain ⟨t, heq, hsecond, hargs⟩ := requireArg_of_args hrest hne (f fd)
  refine ⟨t, ?_, hsecond, hargs⟩
  rw [← heq, ← hnumber]
  rfl

/-- The branch of `read_to` without a size. -/
theorem readToBranch_none {s : CString} (h : argsOf (parseCommand s).2 = []) (fd : Nat) :
    readToBranch fd s = .run (.readTo fd (parseCommand s).1 none) := by
  unfold readToBranch
  dsimp only
  rcases hthird : (parseCommand s).2 with _ | t
  · rfl
  · rw [hthird] at h
    exact absurd h (fields_ne_nil t)

/-- The branch of `read_to` with a size. -/
theorem readToBranch_some {s : CString} {third : List UInt8} {rest : List (List UInt8)}
    (h : argsOf (parseCommand s).2 = third :: rest) (hne : third ≠ []) (fd : Nat) :
    ∃ t, readToBranch fd s = .run (.readTo fd (parseCommand s).1
        (some (parseNumber 32 (parseCommand t).1))) ∧ (parseCommand t).1.bytes = third := by
  unfold readToBranch
  dsimp only
  rcases hthird : (parseCommand s).2 with _ | t
  · rw [hthird] at h
    cases h
  · rw [hthird] at h
    exact ⟨t, if_neg (bytes_ne_nil_of_fields h hne), (parseCommand_of_fields h).1⟩

/-- **The arguments of a command** make its branch run it. -/
theorem Command.Typeable.branch_args {c : Command} (hc : c.Typeable) {arg : Option CString}
    (harg : argsOf arg = c.args) : branch c.word arg = .run c := by
  -- a branch with a path
  have hpath : ∀ {path : CString} {f : CString → Command}, IsArgument path.bytes →
      argsOf arg = [path.bytes] → pathBranch f arg = .run (f path) := by
    intro path f hargument h
    obtain ⟨s, heq, hfirst, -⟩ := requireArg_of_args h hargument.1 _
    rw [pathBranch, heq, CString.ext hfirst]
  -- a branch with a descriptor and something else
  have hfd : ∀ {fd : Nat} {second : List UInt8} {rest : List (List UInt8)}
      (f : Nat → CString → Dispatch), fd < 2 ^ 16 → second ≠ [] →
      argsOf arg = decimalText fd :: second :: rest →
      ∃ t, requireArg arg (fdBranch f) = f fd t ∧ (parseCommand t).1.bytes = second ∧
        argsOf (parseCommand t).2 = rest := by
    intro fd second rest f hlt hne h
    obtain ⟨s, heq, hfirst, hrest⟩ := requireArg_of_args h (isDecimal_decimalText fd).1 (fdBranch f)
    rw [heq]
    exact fdBranch_of_args hlt hfirst hrest hne f
  cases c with
  | init => rfl
  | readFs => rfl
  | ls path => exact hpath hc harg
  | mkdir path => exact hpath hc harg
  | touch path => exact hpath hc harg
  | «open» path => exact hpath hc harg
  | close fd =>
    obtain ⟨s, heq, hfirst, -⟩ := requireArg_of_args harg (isDecimal_decimalText fd).1 _
    rw [Command.word, branch, heq, parseNumber_decimalText hfirst (by decide) hc]
  | write fd data =>
    obtain ⟨t, heq, hsecond, -⟩ := hfd _ hc.1 hc.2.1 harg
    rw [Command.word, branch, heq, hsecond]
  | writeFrom fd path =>
    obtain ⟨t, heq, hsecond, -⟩ := hfd _ hc.1 hc.2.1 harg
    rw [Command.word, branch, heq, CString.ext hsecond]
  | lseek fd pos =>
    obtain ⟨t, heq, hsecond, -⟩ := hfd _ hc.1 (isDecimal_decimalText pos).1 harg
    rw [Command.word, branch, heq, parseNumber_decimalText hsecond (by decide) hc.2]
  | read fd size =>
    -- `read` does not look whether it has an argument
    cases arg with
    | none => cases harg
    | some s =>
      obtain ⟨hfirst, hrest⟩ := parseCommand_of_fields harg
      obtain ⟨t, heq, hsecond, -⟩ := fdBranch_of_args hc.1 hfirst hrest
        (isDecimal_decimalText size).1
        fun fd arg => .run (.read fd (parseNumber 32 (parseCommand arg).1))
      rw [Command.word, branch, heq, parseNumber_decimalText hsecond (by decide) hc.2]
  | readTo fd path size =>
    cases size with
    | none =>
      obtain ⟨t, heq, hsecond, hrest⟩ := hfd readToBranch hc.1 hc.2.1.1 harg
      rw [Command.word, branch, heq, readToBranch_none hrest, CString.ext hsecond]
    | some size =>
      obtain ⟨t, heq, hsecond, hrest⟩ := hfd readToBranch hc.1 hc.2.1.1 harg
      obtain ⟨u, hrun, hthird⟩ := readToBranch_some hrest (isDecimal_decimalText size).1 fd
      rw [Command.word, branch, heq, hrun, CString.ext hsecond,
        parseNumber_decimalText hthird (by decide) (hc.2.2 size rfl)]

/-- The line of a command, as the string it is. -/
def Command.Typeable.cString {c : Command} (hc : c.Typeable) : CString :=
  ⟨c.line, hc.zero_not_mem_line⟩

/-- **The line of a command** runs the command. -/
theorem dispatch_line {c : Command} (hc : c.Typeable) : dispatch hc.cString = .run c := by
  obtain ⟨hword, hargs⟩ := parseCommand_of_fields (s := hc.cString) hc.splitOn_line
  have hfind : findWord (parseCommand hc.cString).1.bytes = some c.word := by
    rw [hword, findWord_text]
  rw [dispatch_of_word hfind]
  exact hc.branch_args hargs

/-! ### The commands of the grammar -/

/-- The line of a command has the form that the help text gives. -/
theorem Command.Typeable.accepts {c : Command} (hc : c.Typeable) : c.word.accepts c.args := by
  have hdecimal := isDecimal_decimalText
  have hfd : ∀ {fd}, fd < 2 ^ 16 → IsFd (decimalText fd) := fun {fd} hlt =>
    ⟨hdecimal fd, by rwa [decimalValue_decimalText]⟩
  cases c with
  | init | readFs => trivial
  | ls path | mkdir path | touch path | «open» path => exact hc.1
  | close fd => exact hfd hc
  | write fd data => exact ⟨hfd hc.1, hc.2.1⟩
  | writeFrom fd path => exact ⟨hfd hc.1, hc.2.1⟩
  | read fd size => exact ⟨hfd hc.1, hdecimal size⟩
  | lseek fd pos => exact ⟨hfd hc.1, hdecimal pos⟩
  | readTo fd path size =>
    cases size with
    | none => exact ⟨hfd hc.1, hc.2.1.1⟩
    | some size => exact ⟨hfd hc.1, hc.2.1.1, hdecimal size⟩

/-- What a text becomes in the line of a command: it does not grow, and gets no newline. -/
def Shortens (own given : List UInt8) : Prop :=
  own.length ≤ given.length ∧ (newline ∈ own → newline ∈ given)

/-- A text does not grow by staying as it is. -/
theorem shortens_refl (text : List UInt8) : Shortens text text := ⟨Nat.le_refl _, id⟩

/-- Digits denote a number of as many digits. -/
theorem decimalValue_lt {text : List UInt8} (h : ∀ b ∈ text, isDigit b) :
    decimalValue text < 10 ^ text.length := by
  induction text using List.reverseRecOn with
  | nil => decide
  | append_singleton text d ih =>
    have hd : isDigit d := h d (List.mem_append_right _ (List.mem_singleton_self d))
    simp only [isDigit, decide_eq_true_eq, UInt8.le_iff_toNat_le] at hd
    have h57 : (57 : UInt8).toNat = 57 := rfl
    have hlt := ih fun b hb => h b (List.mem_append_left _ hb)
    unfold decimalValue at hlt ⊢
    rw [List.foldl_append, List.foldl_cons, List.foldl_nil, List.length_append,
      List.length_singleton, Nat.pow_succ]
    omega

/-- **A number of the grammar** has no shorter text than the digits of what is read. -/
theorem shortens_number {text : CString} (h : IsDecimal text.bytes) (width : Nat) :
    Shortens (decimalText (parseNumber width text)) text.bytes := by
  constructor
  · have hpos : 0 < text.bytes.length := List.length_pos_iff.mpr h.1
    have hle : parseNumber width text ≤ decimalValue text.bytes := by
      have hpow : (0 : Int) ≤ 2 ^ width := Int.le_of_lt (Int.pow_pos (by decide))
      rw [parseNumber, strtol_decimal h, Int.toNat_emod (by omega) hpow]
      refine (Nat.mod_le _ _).trans ?_
      omega
    rw [decimalText, List.length_map, Nat.length_toDigits_le_iff (by decide) hpos]
    exact hle.trans_lt (decimalValue_lt h.2)
  · intro hmem
    have hdigit := (isDecimal_decimalText _).2 _ hmem
    exact absurd hdigit (by decide)

/-- Fields that do not grow make a line that does not. -/
theorem shortens_intercalate {own given : List (List UInt8)}
    (h : List.Forall₂ Shortens own given) :
    Shortens ([space].intercalate own) ([space].intercalate given) := by
  induction h with
  | nil => exact shortens_refl _
  | @cons a b as bs hab has ih =>
    cases has with
    | nil => simpa using hab
    | @cons a' b' as' bs' hab' has' =>
      rw [List.intercalate_cons_cons, List.intercalate_cons_cons]
      constructor
      · simp only [List.length_append]
        exact Nat.add_le_add (Nat.add_le_add_right hab.1 _) ih.1
      · simp only [List.mem_append]
        exact Or.imp (Or.imp_left hab.2) ih.2

/-- A branch with a path gives it an argument. -/
theorem pathBranch_isArgument {word : CommandWord} (hword : ∀ path rest,
      word.accepts (path :: rest) → path ≠ [] ∧ rest = []) {f : CString → Command}
    {arg : Option CString} (haccepts : word.accepts (argsOf arg)) {c : Command}
    (hrun : pathBranch f arg = .run c) :
    ∃ path, IsArgument path.bytes ∧ argsOf arg = [path.bytes] ∧ c = f path := by
  obtain ⟨s, rfl, hs⟩ := requireArg_eq_run hrun
  cases hs
  rw [argsOf, fields_parseCommand] at haccepts ⊢
  obtain ⟨hne, hrest⟩ := hword _ _ haccepts
  exact ⟨_, isArgument_parseCommand hne, by rw [hrest], rfl⟩

/-- A branch with a descriptor gives it the number of the first field, and goes on with the
    second. -/
theorem fdBranch_eq_run {f : Nat → CString → Dispatch} {s : CString} {c : Command}
    (hrun : fdBranch f s = .run c) :
    ∃ first t, fields s = first.bytes :: fields t ∧ f (parseNumber 16 first) t = .run c := by
  have hs : requireArg (parseCommand s).2 (f (parseNumber 16 (parseCommand s).1)) = .run c := hrun
  obtain ⟨t, hsecond, hbranch⟩ := requireArg_eq_run hs
  refine ⟨(parseCommand s).1, t, ?_, hbranch⟩
  rw [fields_parseCommand, hsecond]
  rfl

/-- The same, where the first field is asked for. -/
theorem requireArg_fdBranch_eq_run {f : Nat → CString → Dispatch} {arg : Option CString}
    {c : Command} (hrun : requireArg arg (fdBranch f) = .run c) :
    ∃ first t, argsOf arg = first.bytes :: fields t ∧ f (parseNumber 16 first) t = .run c := by
  obtain ⟨s, rfl, hs⟩ := requireArg_eq_run hrun
  exact fdBranch_eq_run hs

/-- **A line of the grammar** runs a command that has a line, with arguments that are not
    longer. -/
theorem runs_of_branch {word : CommandWord} {arg : Option CString} {c : Command}
    (haccepts : word.accepts (argsOf arg)) (hrun : branch word arg = .run c) :
    c.Typeable ∧ c.word = word ∧ List.Forall₂ Shortens c.args (argsOf arg) := by
  -- a line of one path
  have hpath : ∀ {path : CString}, argsOf arg = [path.bytes] →
      List.Forall₂ Shortens [path.bytes] (argsOf arg) := by
    intro path hargs
    rw [hargs]
    exact .cons (shortens_refl _) .nil
  -- a line of a descriptor and one more argument
  have hfd : ∀ {first : CString} {second : List UInt8}, argsOf arg = [first.bytes, second] →
      IsFd first.bytes → ∀ {own : List UInt8}, Shortens own second →
      List.Forall₂ Shortens [decimalText (parseNumber 16 first), own] (argsOf arg) := by
    intro first second hargs hdecimal own hown
    rw [hargs]
    exact .cons (shortens_number hdecimal.1 16) (.cons hown .nil)
  cases word with
  | help => cases hrun
  | quit => cases hrun
  | init | readFs =>
    cases hrun
    cases hargs : argsOf arg with
    | nil => exact ⟨trivial, rfl, .nil⟩
    | cons first rest =>
      rw [hargs] at haccepts
      exact haccepts.elim
  | ls | mkdir | touch | «open» =>
    obtain ⟨path, hargument, hargs, rfl⟩ := pathBranch_isArgument (fun path rest h => by
      cases rest with
      | nil => exact ⟨h, rfl⟩
      | cons => exact h.elim) haccepts hrun
    exact ⟨hargument, rfl, hpath hargs⟩
  | close =>
    obtain ⟨s, rfl, hs⟩ := requireArg_eq_run hrun
    cases hs
    rw [argsOf, fields_parseCommand] at haccepts ⊢
    cases hrest : argsOf (parseCommand s).2 with
    | nil =>
      rw [hrest] at haccepts
      exact ⟨parseNumber_lt 16 _, rfl, .cons (shortens_number haccepts.1 16) .nil⟩
    | cons second rest =>
      rw [hrest] at haccepts
      exact haccepts.elim
  | lseek =>
    obtain ⟨first, t, hargs, ht⟩ := requireArg_fdBranch_eq_run hrun
    cases ht
    rw [fields_parseCommand] at hargs
    cases hrest : argsOf (parseCommand t).2 with
    | nil =>
      rw [hrest] at hargs
      rw [hargs] at haccepts
      exact ⟨⟨parseNumber_lt 16 _, parseNumber_lt 32 _⟩, rfl,
        hfd hargs haccepts.1 (shortens_number haccepts.2 32)⟩
    | cons third rest =>
      rw [hargs, hrest] at haccepts
      exact haccepts.elim
  | write | writeFrom =>
    obtain ⟨first, t, hargs, ht⟩ := requireArg_fdBranch_eq_run hrun
    cases ht
    rw [fields_parseCommand] at hargs
    cases hrest : argsOf (parseCommand t).2 with
    | nil =>
      rw [hrest] at hargs
      rw [hargs] at haccepts
      exact ⟨⟨parseNumber_lt 16 _, isArgument_parseCommand haccepts.2⟩, rfl,
        hfd hargs haccepts.1 (shortens_refl _)⟩
    | cons third rest =>
      rw [hargs, hrest] at haccepts
      exact haccepts.elim
  | read =>
    -- the branch does not look whether there is a first argument
    cases arg with
    | none => cases hrun
    | some s =>
      obtain ⟨first, t, hargs, ht⟩ := fdBranch_eq_run
        (f := fun fd arg => .run (.read fd (parseNumber 32 (parseCommand arg).1))) hrun
      cases ht
      rw [fields_parseCommand t] at hargs
      cases hrest : argsOf (parseCommand t).2 with
      | nil =>
        rw [hrest] at hargs
        rw [argsOf, hargs] at haccepts
        exact ⟨⟨parseNumber_lt 16 _, parseNumber_lt 32 _⟩, rfl,
          hfd hargs haccepts.1 (shortens_number haccepts.2 32)⟩
      | cons third rest =>
        rw [argsOf, hargs, hrest] at haccepts
        exact haccepts.elim
  | readTo =>
    obtain ⟨first, t, hargs, ht⟩ := requireArg_fdBranch_eq_run hrun
    rw [fields_parseCommand] at hargs
    cases hrest : argsOf (parseCommand t).2 with
    | nil =>
      rw [hrest] at hargs
      rw [readToBranch_none hrest] at ht
      cases ht
      rw [hargs] at haccepts
      refine ⟨⟨parseNumber_lt 16 _, isArgument_parseCommand haccepts.2, ?_⟩, rfl,
        hfd hargs haccepts.1 (shortens_refl _)⟩
      rintro n ⟨⟩
    | cons third rest =>
      rw [hargs, hrest] at haccepts
      cases rest with
      | nil =>
        obtain ⟨hfirst, hsecond, hthird⟩ := haccepts
        obtain ⟨u, hbranch, hu⟩ := readToBranch_some hrest hthird.1 (parseNumber 16 first)
        rw [hbranch] at ht
        cases ht
        rw [← hu] at hthird hrest
        rw [hargs, hrest]
        refine ⟨⟨parseNumber_lt 16 _, isArgument_parseCommand hsecond, ?_⟩, rfl,
          .cons (shortens_number hfirst.1 16)
            (.cons (shortens_refl _) (.cons (shortens_number hthird 32) .nil))⟩
        rintro n ⟨⟩
        exact parseNumber_lt 32 _
      | cons fourth rest => exact haccepts.elim

/-- **The commands of the grammar** are those that have a line, and those whose line fits the
    buffer: their own line is one of the grammar that runs them. -/
theorem typeable_iff (c : Command) :
    (c.Typeable ∧ c.OneLine ↔
      ∃ line : CString, FitsBuffer line.bytes ∧ MatchesGrammar line ∧ dispatch line = .run c) ∧
    (c.Typeable ∧ c.OneLine →
      ∃ line : CString, line.bytes = c.line ∧ FitsBuffer line.bytes ∧ MatchesGrammar line ∧
        dispatch line = .run c) := by
  have hown : c.Typeable ∧ c.OneLine →
      ∃ line : CString, line.bytes = c.line ∧ FitsBuffer line.bytes ∧ MatchesGrammar line ∧
        dispatch line = .run c := by
    rintro ⟨hc, hone⟩
    exact ⟨hc.cString, rfl, hone, ⟨c.word, c.args, hc.splitOn_line, hc.accepts⟩, dispatch_line hc⟩
  refine ⟨⟨?_, ?_⟩, hown⟩
  · intro hc
    obtain ⟨line, -, hline⟩ := hown hc
    exact ⟨line, hline⟩
  · rintro ⟨line, hfits, ⟨word, args, hfields, haccepts⟩, hrun⟩
    obtain ⟨hword, rfl⟩ := parseCommand_of_fields hfields
    have hfind : findWord (parseCommand line).1.bytes = some word := by
      rw [hword, findWord_text]
    rw [dispatch_of_word hfind] at hrun
    obtain ⟨hc, rfl, hargs⟩ := runs_of_branch haccepts hrun
    have hshort := shortens_intercalate (.cons (shortens_refl c.word.text) hargs)
    rw [← hfields, fields, List.intercalate_splitOn] at hshort
    exact ⟨hc, fun hmem => hfits.1 (hshort.2 hmem),
      Nat.lt_of_le_of_lt (Nat.add_le_add_right hshort.1 1) hfits.2⟩

end MiniExt
