import MiniExt.Input
import MiniExt.Properties.Grammar

namespace MiniExt

open Lib

/-!
# The input is executed as it is

A stream is the list of its lines, each ended by a newline but perhaps the last.  The client
should dispatch them one after the other, unchanged, up to the first `quit` or to the end.

It does so exactly when a line ends it before the input does (`executesInput_iff`): what `fgets`
leaves in the buffer at the end of the input is cut by another byte and dispatched again, and
again, until there is nothing left to cut.  A last line without a newline loses its last byte,
and so does a line that fills the buffer.

* `inputLines`, `commandLines` — the lines of a stream, and those up to the first `quit`;
* `ExecutesInput` — the client dispatches these and ends;
* `Executable` — every line fits, is terminated, and one of them ends the client.
-/

/-! ### The lines of a stream -/

/-- A line of the input, without its newline. -/
structure InputLine where
  text : List UInt8
  terminated : Bool
  deriving DecidableEq, Repr

/-- The lines of a stream. -/
def inputLines : List UInt8 → List InputLine
  | [] => []
  | b :: stdin =>
    if b = newline then ⟨[], true⟩ :: inputLines stdin
    else
      match inputLines stdin with
      | [] => [⟨[b], false⟩]
      | line :: lines => ⟨b :: line.text, line.terminated⟩ :: lines

/-- A line whose first word is `quit`. -/
def quits (text : List UInt8) : Bool := (text.splitOn space).head? = some CommandWord.quit.text

/-- The lines that are to be executed. -/
def commandLines : List InputLine → List (List UInt8)
  | [] => []
  | line :: lines => line.text :: if quits line.text then [] else commandLines lines

/-- The client comes to an end, and dispatched these lines. -/
def ByteWorld.EndsWith (w : ByteWorld) (buffer stdin : List UInt8) (dispatched : List CString)
    (e : ClientEnd) : Prop :=
  ∃ fuel, clientLoop fuel buffer stdin w = (dispatched, some e)

/-- The client dispatches these lines as they are, up to the first `quit` or to the last of
    them, and ends there. -/
def ExecutesLines (w : ByteWorld) (buffer stdin : List UInt8) (lines : List InputLine) : Prop :=
  ∃ dispatched e, w.EndsWith buffer stdin dispatched e ∧
    dispatched.map CString.bytes = commandLines lines ∧ e ≠ .memoryError

/-- The client executes its input. -/
def ExecutesInput (w : ByteWorld) (buffer stdin : List UInt8) : Prop :=
  ExecutesLines w buffer stdin (inputLines stdin)

/-- Every line up to the one that ends the client is terminated, leaves room for its newline and
    the terminator, and has no zero byte; and a line does end the client, as a `quit` or, if it
    is the last, as a command that ends the process. -/
def Executable (w : ByteWorld) : List InputLine → Prop
  | [] => False
  | line :: lines =>
    line.terminated ∧ line.text.length + 1 < commandBufferLength ∧ 0 ∉ line.text ∧
      match w.turn (bufferLine line.text) with
      | .next w => Executable w lines
      | .ended .returned => True
      | .ended .processEnded => lines = []
      | .ended .memoryError | .hangs => False

/-! ### Streams and their lines -/

/-- A stream, line by line. -/
inductive LineByLine : List UInt8 → Prop where
  | empty : LineByLine []
  | unterminated (text : List UInt8) (hne : text ≠ []) (htext : newline ∉ text) : LineByLine text
  | terminated (text rest : List UInt8) (htext : newline ∉ text) (hrest : LineByLine rest) :
    LineByLine (text ++ newline :: rest)

/-- Every stream is one of lines. -/
theorem lineByLine (stdin : List UInt8) : LineByLine stdin := by
  induction stdin with
  | nil => exact .empty
  | cons b stdin ih =>
    by_cases hb : b = newline
    · subst hb
      exact .terminated [] stdin List.not_mem_nil ih
    · cases ih with
      | empty => exact .unterminated [b] (by simp) (by simpa using Ne.symm hb)
      | unterminated text _ htext =>
        exact .unterminated (b :: _) (by simp) (by simpa [htext] using Ne.symm hb)
      | terminated text rest htext hrest =>
        exact .terminated (b :: text) rest (by simpa [htext] using Ne.symm hb) hrest

/-- Input without a newline is one line, not ended. -/
theorem inputLines_unterminated {text : List UInt8} (hne : text ≠ []) (htext : newline ∉ text) :
    inputLines text = [⟨text, false⟩] := by
  induction text with
  | nil => exact absurd rfl hne
  | cons b text ih =>
    obtain ⟨hb, htext⟩ := not_or.mp (mt List.mem_cons.mpr htext)
    rw [inputLines, if_neg (Ne.symm hb)]
    cases text with
    | nil => rfl
    | cons c text => rw [ih (by simp) htext]

/-- Input up to a newline is a line that is ended. -/
theorem inputLines_terminated {text : List UInt8} (rest : List UInt8) (htext : newline ∉ text) :
    inputLines (text ++ newline :: rest) = ⟨text, true⟩ :: inputLines rest := by
  induction text with
  | nil => rw [List.nil_append, inputLines, if_pos rfl]
  | cons b text ih =>
    obtain ⟨hb, htext⟩ := not_or.mp (mt List.mem_cons.mpr htext)
    rw [List.cons_append, inputLines, if_neg (Ne.symm hb), ih htext]

/-! ### What `fgets` takes -/

/-- `fgets` reads a line that has room, with its newline. -/
theorem fgetsLine_terminated {room : Nat} {text : List UInt8} (rest : List UInt8)
    (htext : newline ∉ text) (hroom : text.length < room) :
    fgetsLine room (text ++ newline :: rest) = text ++ [newline] := by
  induction text generalizing room with
  | nil =>
    obtain ⟨room, rfl⟩ := Nat.exists_eq_succ_of_ne_zero (Nat.ne_of_gt hroom)
    rw [List.nil_append, fgetsLine, if_pos rfl]
    rfl
  | cons b text ih =>
    obtain ⟨hb, htext⟩ := not_or.mp (mt List.mem_cons.mpr htext)
    obtain ⟨room, rfl⟩ := Nat.exists_eq_succ_of_ne_zero (Nat.ne_zero_of_lt hroom)
    rw [List.cons_append, fgetsLine, if_neg (Ne.symm hb),
      ih htext (Nat.lt_of_succ_lt_succ hroom)]
    rfl

/-- A line that is too long, or that the input ends, is taken as far as there is room. -/
theorem fgetsLine_cut {room : Nat} {text rest : List UInt8} (htext : newline ∉ text)
    (hcut : rest = [] ∨ room ≤ text.length) :
    fgetsLine room (text ++ rest) = text.take room := by
  induction text generalizing room with
  | nil =>
    cases room with
    | zero => rw [fgetsLine, List.take_zero]
    | succ room =>
      obtain rfl : rest = [] := hcut.resolve_right (by simp)
      rfl
  | cons b text ih =>
    obtain ⟨hb, htext⟩ := not_or.mp (mt List.mem_cons.mpr htext)
    cases room with
    | zero => rw [fgetsLine, List.take_zero]
    | succ room =>
      rw [List.cons_append, fgetsLine, if_neg (Ne.symm hb), List.take_succ_cons,
        ih htext (hcut.imp_right Nat.le_of_succ_le_succ)]

/-- `fgets` reads no more than there is room. -/
theorem fgetsLine_length_le (room : Nat) (stdin : List UInt8) :
    (fgetsLine room stdin).length ≤ room := by
  induction stdin generalizing room with
  | nil => cases room <;> simp [fgetsLine]
  | cons b stdin ih =>
    cases room with
    | zero => simp [fgetsLine]
    | succ room =>
      rw [fgetsLine]
      split
      · simp
      · simpa using ih room

/-! ### What is left of it in the buffer -/

/-- The part of a C string before its first zero byte, with that byte. -/
theorem takeWhile_append_zero (bytes rest : List UInt8) :
    ∃ q, bytes ++ 0 :: rest = bytes.takeWhile (· ≠ 0) ++ 0 :: q := by
  induction bytes with
  | nil => exact ⟨rest, rfl⟩
  | cons b bytes ih =>
    obtain ⟨q, hq⟩ := ih
    by_cases hb : b = 0
    · subst hb
      exact ⟨bytes ++ 0 :: rest, rfl⟩
    · exact ⟨q, by rw [List.takeWhile_cons_of_pos (by simpa using hb), List.cons_append, hq]; rfl⟩

/-- A string ends at its terminator. -/
theorem takeWhile_of_nulFree {bytes : List UInt8} (h : 0 ∉ bytes) (rest : List UInt8) :
    (bytes ++ 0 :: rest).takeWhile (· ≠ 0) = bytes := by
  rw [List.takeWhile_append_of_pos fun b hb => by
    simpa using ne_of_mem_of_not_mem hb h]
  simp

/-- A text without zeros is the string it makes. -/
theorem bufferLine_of_nulFree {text : List UInt8} (h : 0 ∉ text) :
    (bufferLine text).bytes = text :=
  List.takeWhile_eq_self_iff.mpr fun b hb => by simpa using ne_of_mem_of_not_mem hb h

/-- `strlen` of a terminated text is its length. -/
theorem strlen_terminated {text : List UInt8} (h : 0 ∉ text) (rest : List UInt8) :
    strlen (text ++ 0 :: rest) = .done text.length := by
  rw [strlen, if_pos (by simp)]
  show Outcome.done (List.length ((text ++ 0 :: rest).takeWhile (· ≠ 0))) = .done text.length
  rw [takeWhile_of_nulFree h]

/-- The terminator moves one byte to the front. -/
theorem bufferLine_set_last {text : List UInt8} (h : 0 ∉ text) (hne : text ≠ [])
    (rest : List UInt8) :
    (bufferLine ((text ++ 0 :: rest).set (text.length - 1) 0)).bytes = text.dropLast := by
  obtain ⟨init, b, rfl⟩ : ∃ init b, text = init ++ [b] :=
    ⟨_, _, (List.dropLast_append_getLast hne).symm⟩
  have hset : ((init ++ [b] ++ 0 :: rest).set ((init ++ [b]).length - 1) 0)
      = init ++ 0 :: 0 :: rest := by
    rw [List.append_assoc, List.length_append, List.length_singleton, Nat.add_sub_cancel,
      List.set_append_right _ _ (Nat.le_refl _), Nat.sub_self]
    rfl
  rw [hset, List.dropLast_concat]
  exact takeWhile_of_nulFree (fun hmem => h (List.mem_append_left _ hmem)) _

/-! ### A line is read -/

section Read

variable {buffer stdin got : List UInt8} (hbuffer : buffer.length = commandBufferLength)
  (hgot : fgetsLine (commandBufferLength - 1) stdin = got) (hne : got ≠ [])

include hbuffer hgot hne

/-- The buffer after `fgets`: the C string that was read, and its terminator. -/
theorem fgets_line :
    ∃ q, fgets buffer commandBufferLength stdin
        = (got.takeWhile (· ≠ 0) ++ 0 :: q, stdin.drop got.length) ∧
      (got.takeWhile (· ≠ 0) ++ 0 :: q).length = commandBufferLength := by
  have hle : got.length ≤ commandBufferLength - 1 := hgot ▸ fgetsLine_length_le _ _
  obtain ⟨q, hq⟩ := takeWhile_append_zero got (buffer.drop (got.length + 1))
  refine ⟨q, ?_, ?_⟩
  · rw [fgets]
    simp only [hgot, if_neg hne]
    rw [memcpy, List.take_zero, List.nil_append, Nat.zero_add, List.length_append,
      List.length_singleton, List.append_assoc, List.singleton_append, hq]
  · rw [← hq, List.length_append, List.length_cons, List.length_drop, hbuffer]
    simp only [commandBufferLength] at hle ⊢
    omega

/-- A line that starts with a zero byte has no last byte to remove. -/
theorem readCommand_empty (hzero : got.takeWhile (· ≠ 0) = []) :
    readCommandFromStdin buffer stdin = .halted .memoryError := by
  obtain ⟨q, hq, hlength⟩ := fgets_line hbuffer hgot hne
  rw [hzero] at hq hlength
  have hlen : strlen ([] ++ 0 :: q) = .done 0 := strlen_terminated List.not_mem_nil q
  rw [readCommandFromStdin, hq]
  dsimp only
  rw [hlen]
  exact if_neg (by rw [hlength]; decide)

/-- Otherwise the last byte of the C string that was read is removed. -/
theorem readCommand_line (hline : got.takeWhile (· ≠ 0) ≠ []) :
    ∃ buffer', readCommandFromStdin buffer stdin = .done (buffer', stdin.drop got.length) ∧
      buffer'.length = commandBufferLength ∧
      (bufferLine buffer').bytes = (got.takeWhile (· ≠ 0)).dropLast := by
  obtain ⟨q, hq, hlength⟩ := fgets_line hbuffer hgot hne
  generalize hp : got.takeWhile (· ≠ 0) = p at hq hlength hline
  have hnul : (0 : UInt8) ∉ p := by
    rw [← hp]
    exact (bufferLine got).nulFree
  have hpos : 0 < p.length := List.length_pos_iff.mpr hline
  have hlt : p.length < commandBufferLength := by
    rw [← hlength, List.length_append, List.length_cons]
    omega
  have hlast : (p.length + 2 ^ 32 - 1) % 2 ^ 32 = p.length - 1 := by
    rw [commandBufferLength] at hlt
    omega
  refine ⟨(p ++ 0 :: q).set (p.length - 1) 0, ?_, ?_, bufferLine_set_last hnul hline q⟩
  · rw [readCommandFromStdin, hq]
    dsimp only
    rw [strlen_terminated hnul]
    dsimp only
    rw [hlast, if_pos (by rw [hlength]; omega)]
  · rw [List.length_set, hlength]

end Read

/-! ### One turn -/

/-- Where reading a line leaves the memory, the client ends so. -/
theorem endsWith_of_halted {w : ByteWorld} {buffer stdin : List UInt8} {e' : Stop}
    (hread : readCommandFromStdin buffer stdin = .halted e') (lines : List CString)
    (e : ClientEnd) :
    w.EndsWith buffer stdin lines e ↔ lines = [] ∧ e = .memoryError := by
  constructor
  · rintro ⟨_ | fuel, hrun⟩
    · cases hrun
    · rw [clientLoop, hread] at hrun
      cases hrun
      exact ⟨rfl, rfl⟩
  · rintro ⟨rfl, rfl⟩
    exact ⟨1, by rw [clientLoop, hread]⟩

/-- Where a line is read, the client ends as its turn says. -/
theorem endsWith_of_done {w : ByteWorld} {buffer stdin buffer' stdin' : List UInt8}
    (hread : readCommandFromStdin buffer stdin = .done (buffer', stdin')) (lines : List CString)
    (e : ClientEnd) :
    w.EndsWith buffer stdin lines e ↔
      ∃ rest, lines = bufferLine buffer' :: rest ∧
        match w.turn (bufferLine buffer') with
        | .hangs => False
        | .ended e' => rest = [] ∧ e = e'
        | .next w => w.EndsWith buffer' stdin' rest e := by
  constructor
  · -- some fuel was enough
    rintro ⟨_ | fuel, hrun⟩
    · cases hrun
    · rw [clientLoop, hread] at hrun
      dsimp only at hrun
      cases hturn : w.turn (bufferLine buffer') with
      | hangs =>
        rw [hturn] at hrun
        cases hrun
      | ended e' =>
        rw [hturn] at hrun
        obtain ⟨rfl, he⟩ := Prod.mk.inj hrun
        exact ⟨[], rfl, rfl, (Option.some.inj he).symm⟩
      | next w' =>
        rw [hturn] at hrun
        obtain ⟨rfl, he⟩ := Prod.mk.inj hrun
        exact ⟨_, rfl, fuel, by rw [← he]⟩
  · -- one more than the rest needs is enough
    rintro ⟨rest, rfl, hrest⟩
    cases hturn : w.turn (bufferLine buffer') with
    | hangs =>
      rw [hturn] at hrest
      exact hrest.elim
    | ended e' =>
      rw [hturn] at hrest
      obtain ⟨rfl, rfl⟩ := hrest
      exact ⟨1, by rw [clientLoop, hread]; dsimp only; rw [hturn]⟩
    | next w' =>
      rw [hturn] at hrest
      obtain ⟨fuel, hrun⟩ := hrest
      exact ⟨fuel + 1, by rw [clientLoop, hread]; dsimp only; rw [hturn]; dsimp only; rw [hrun]⟩

/-- A missing argument is no `quit`. -/
theorem requireArg_ne_quit {arg : Option CString} {branch : CString → Dispatch}
    (h : ∀ arg, branch arg ≠ .quit) : requireArg arg branch ≠ .quit := by
  rcases requireArg_cases arg branch with hrejected | ⟨s, -, heq⟩
  · rw [hrejected]
    exact Dispatch.noConfusion
  · rw [heq]
    exact h s

/-- A branch with a descriptor is no `quit`. -/
theorem fdBranch_ne_quit {branch : Nat → CString → Dispatch} (h : ∀ fd arg, branch fd arg ≠ .quit)
    (arg : CString) : fdBranch branch arg ≠ .quit :=
  requireArg_ne_quit fun _ => h _ _

/-- The branch of `read_to` is no `quit`. -/
theorem readToBranch_ne_quit (fd : Nat) (arg : CString) : readToBranch fd arg ≠ .quit := by
  obtain ⟨path, size, hrun⟩ := readToBranch_eq fd arg
  rw [hrun]
  exact Dispatch.noConfusion

/-- The branch of `quit` is the one that returns. -/
theorem branch_eq_quit_iff (word : CommandWord) (arg : Option CString) :
    branch word arg = .quit ↔ word = .quit := by
  refine ⟨fun h => ?_, fun h => by rw [h]; rfl⟩
  cases word with
  | quit => rfl
  | help | init | readFs => exact Dispatch.noConfusion h
  | ls | mkdir | touch | «open» | close =>
    exact absurd h (requireArg_ne_quit fun _ => Dispatch.noConfusion)
  | write | writeFrom | lseek =>
    exact absurd h (requireArg_ne_quit (fdBranch_ne_quit fun _ _ => Dispatch.noConfusion))
  | readTo => exact absurd h (requireArg_ne_quit (fdBranch_ne_quit readToBranch_ne_quit))
  | read =>
    cases arg with
    | none => exact Dispatch.noConfusion h
    | some arg =>
      exact absurd h (@fdBranch_ne_quit
        (fun fd arg => .run (.read fd (parseNumber 32 (parseCommand arg).1)))
        (fun _ _ => Dispatch.noConfusion) arg)

/-- **A line returns** exactly when its word is `quit`. -/
theorem dispatch_eq_quit_iff (line : CString) : dispatch line = .quit ↔ quits line.bytes := by
  have hhead : quits line.bytes ↔ (parseCommand line).1.bytes = CommandWord.quit.text := by
    refine decide_eq_true_iff.trans ?_
    show (fields line).head? = _ ↔ _
    rw [fields_parseCommand, List.head?_cons, Option.some_inj]
  rw [hhead, dispatch]
  dsimp only
  constructor
  · intro h
    split at h
    · exact Dispatch.noConfusion h
    · next word hword =>
      rw [(branch_eq_quit_iff _ _).mp h] at hword
      unfold findWord at hword
      have htext := List.find?_some hword
      exact (of_decide_eq_true htext).symm
  · intro h
    rw [h, findWord_text]
    rfl

/-- A turn returns exactly on such a line. -/
theorem turn_eq_returned_iff (w : ByteWorld) (line : CString) :
    w.turn line = .ended .returned ↔ quits line.bytes := by
  rw [← dispatch_eq_quit_iff, ByteWorld.turn]
  constructor
  · intro h
    split at h
    case h_3 hquit => exact hquit
    case h_5 => split at h <;> cases h
    all_goals cases h
  · intro h
    rw [h]

/-! ### Whole runs -/

/-- There are commands where there are lines. -/
theorem commandLines_eq_nil_iff (lines : List InputLine) :
    commandLines lines = [] ↔ lines = [] := by
  cases lines <;> simp [commandLines]

/-- With no line left nothing should be dispatched, but something is. -/
theorem not_executesLines_nil (w : ByteWorld) (buffer stdin : List UInt8) :
    ¬ ExecutesLines w buffer stdin [] := by
  rintro ⟨dispatched, e, hends, hlines, he⟩
  obtain rfl := List.map_eq_nil_iff.mp hlines
  rcases hread : readCommandFromStdin buffer stdin with ⟨buffer', stdin'⟩ | e'
  · obtain ⟨rest, hcons, _⟩ := (endsWith_of_done hread [] e).mp hends
    cases hcons
  · exact he ((endsWith_of_halted hread [] e).mp hends).2

section Line

variable {w : ByteWorld} {buffer stdin : List UInt8} {line : InputLine} {lines : List InputLine}

/-- A line that becomes shorter on its way is not executed as it is. -/
theorem not_executesLines_of_shorter {buffer' stdin' : List UInt8}
    (hread : readCommandFromStdin buffer stdin = .done (buffer', stdin'))
    (hlt : (bufferLine buffer').bytes.length < line.text.length) :
    ¬ ExecutesLines w buffer stdin (line :: lines) := by
  rintro ⟨dispatched, e, hends, hlines, _⟩
  obtain ⟨rest, rfl, _⟩ := (endsWith_of_done hread dispatched e).mp hends
  have hhead := (List.cons.inj hlines).1
  rw [hhead] at hlt
  exact Nat.lt_irrefl _ hlt

/-- A line that is read as it is: the rest depends on what it does. -/
theorem executesLines_iff_of_same {buffer' stdin' : List UInt8}
    (hread : readCommandFromStdin buffer stdin = .done (buffer', stdin'))
    (hsame : (bufferLine buffer').bytes = line.text) :
    ExecutesLines w buffer stdin (line :: lines) ↔
      match w.turn (bufferLine buffer') with
      | .next w => ExecutesLines w buffer' stdin' lines
      | .ended .returned => True
      | .ended .processEnded => lines = []
      | .ended .memoryError | .hangs => False := by
  have hstep : ExecutesLines w buffer stdin (line :: lines) ↔
      ∃ rest e, (match w.turn (bufferLine buffer') with
        | .hangs => False
        | .ended e' => rest = [] ∧ e = e'
        | .next w => w.EndsWith buffer' stdin' rest e) ∧
        rest.map CString.bytes = (if quits line.text then [] else commandLines lines) ∧
        e ≠ .memoryError := by
    constructor
    · rintro ⟨dispatched, e, hends, hlines, he⟩
      obtain ⟨rest, rfl, hrest⟩ := (endsWith_of_done hread dispatched e).mp hends
      exact ⟨rest, e, hrest, (List.cons.inj hlines).2, he⟩
    · rintro ⟨rest, e, hrest, hlines, he⟩
      refine ⟨_ :: rest, e, (endsWith_of_done hread _ e).mpr ⟨rest, rfl, hrest⟩, ?_, he⟩
      rw [List.map_cons, hsame, hlines, commandLines]
  have hquits := turn_eq_returned_iff w (bufferLine buffer')
  rw [hsame] at hquits
  rw [hstep]
  rcases hturn : w.turn (bufferLine buffer') with w' | (_ | _ | _) | _
  · -- the loop goes on with the next line
    rw [if_neg fun h => by rw [hquits.mpr h] at hturn; cases hturn]
    exact Iff.rfl
  · -- `quit` ends the client, whatever lines follow
    rw [if_pos (hquits.mp hturn)]
    exact iff_of_true ⟨[], .returned, ⟨rfl, rfl⟩, rfl, ClientEnd.noConfusion⟩ trivial
  · -- a command that ends the process has to be the last
    rw [if_neg fun h => by rw [hquits.mpr h] at hturn; cases hturn]
    constructor
    · rintro ⟨_, _, ⟨rfl, rfl⟩, hnil, _⟩
      exact (commandLines_eq_nil_iff lines).mp hnil.symm
    · rintro rfl
      exact ⟨[], .processEnded, ⟨rfl, rfl⟩, rfl, ClientEnd.noConfusion⟩
  · refine iff_of_false ?_ id
    rintro ⟨_, _, ⟨-, rfl⟩, -, he⟩
    exact he rfl
  · refine iff_of_false ?_ id
    rintro ⟨_, _, hfalse, -⟩
    exact hfalse

/-- A line that does not fit, lacks its newline or has a zero byte. -/
theorem not_executesLines_of_cut {got : List UInt8} (hbuffer : buffer.length = commandBufferLength)
    (hgot : fgetsLine (commandBufferLength - 1) stdin = got) (hne : got ≠ [])
    (hshort : (got.takeWhile (· ≠ 0)).length ≤ line.text.length) :
    ¬ ExecutesLines w buffer stdin (line :: lines) := by
  by_cases hzero : got.takeWhile (· ≠ 0) = []
  · have hread := readCommand_empty hbuffer hgot hne hzero
    rintro ⟨dispatched, e, hends, _, he⟩
    exact he ((endsWith_of_halted hread dispatched e).mp hends).2
  · obtain ⟨buffer', hread, _, hbytes⟩ := readCommand_line hbuffer hgot hne hzero
    have hpos := List.length_pos_iff.mpr hzero
    refine not_executesLines_of_shorter hread ?_
    rw [hbytes, List.length_dropLast]
    omega

/-- A line that fits is read as it is. -/
theorem readCommand_fits {text rest : List UInt8} (hbuffer : buffer.length = commandBufferLength)
    (htext : newline ∉ text) (hfits : text.length + 1 < commandBufferLength) (hnul : 0 ∉ text) :
    ∃ buffer', readCommandFromStdin buffer (text ++ newline :: rest) = .done (buffer', rest) ∧
      buffer'.length = commandBufferLength ∧ (bufferLine buffer').bytes = text := by
  have hgot := fgetsLine_terminated rest htext (Nat.lt_sub_of_add_lt hfits)
  have hnul' : (0 : UInt8) ∉ text ++ [newline] := by
    simpa [newline] using hnul
  have hwhole : (text ++ [newline]).takeWhile (· ≠ 0) = text ++ [newline] :=
    bufferLine_of_nulFree hnul'
  obtain ⟨buffer', hread, hlength, hbytes⟩ :=
    readCommand_line hbuffer hgot (by simp) (by rw [hwhole]; simp)
  refine ⟨buffer', ?_, hlength, ?_⟩
  · rw [hread, List.append_cons text newline rest, List.drop_left]
  · rw [hbytes, hwhole, List.dropLast_concat]

end Line

/-- A zero byte ends a line early. -/
theorem takeWhile_of_zero {text : List UInt8} (hzero : 0 ∈ text) (rest : List UInt8) :
    (text ++ rest).takeWhile (· ≠ 0) = text.takeWhile (· ≠ 0) := by
  rw [List.takeWhile_append, if_neg]
  intro hlength
  have hall := List.takeWhile_eq_self_iff.mp
    ((List.takeWhile_prefix _).eq_of_length hlength)
  simpa using hall 0 hzero

/-- **The client executes its input** exactly if every line up to one that ends the client
    arrives whole, and there is such a line: at the end of the input it does not stop. -/
theorem executesInput_iff (w : ByteWorld) (buffer stdin : List UInt8)
    (hbuffer : buffer.length = commandBufferLength) :
    ExecutesInput w buffer stdin ↔ Executable w (inputLines stdin) := by
  unfold ExecutesInput
  -- by induction on the lines of the input: the first is read, and its turn decides the rest
  induction lineByLine stdin generalizing w buffer with
  | empty => exact iff_of_false (not_executesLines_nil w buffer []) id
  | unterminated text hne htext =>
    have hgot : fgetsLine (commandBufferLength - 1) text = text.take (commandBufferLength - 1) := by
      simpa using @fgetsLine_cut _ _ [] htext (.inl rfl)
    rw [inputLines_unterminated hne htext]
    refine iff_of_false (not_executesLines_of_cut hbuffer hgot ?_ ?_) fun h => Bool.noConfusion h.1
    · simpa [commandBufferLength] using hne
    · exact (List.takeWhile_prefix _).length_le.trans (List.length_take_le' _ _)
  | terminated text rest htext hrest ih =>
    rw [inputLines_terminated rest htext]
    -- a line that is too long is cut
    by_cases hfits : text.length + 1 < commandBufferLength
    · -- a line that holds a NUL ends there
      by_cases hnul : 0 ∈ text
      · have hgot := fgetsLine_terminated rest htext (Nat.lt_sub_of_add_lt hfits)
        refine iff_of_false (not_executesLines_of_cut hbuffer hgot (by simp) ?_)
          fun h => h.2.2.1 hnul
        rw [takeWhile_of_zero hnul]
        exact (List.takeWhile_prefix _).length_le
      · obtain ⟨buffer', hread, hlength, hbytes⟩ :=
          @readCommand_fits _ _ rest hbuffer htext hfits hnul
        have hline : bufferLine buffer' = bufferLine text :=
          CString.ext (hbytes.trans (bufferLine_of_nulFree hnul).symm)
        rw [executesLines_iff_of_same hread hbytes, hline, Executable]
        refine Iff.trans ?_ (and_iff_right rfl).symm
        refine Iff.trans ?_ (and_iff_right hfits).symm
        refine Iff.trans ?_ (and_iff_right hnul).symm
        rcases w.turn (bufferLine text) with w' | (_ | _ | _) | _
        · exact ih w' buffer' hlength
        all_goals exact Iff.rfl
    · have hroom : commandBufferLength - 1 ≤ text.length := by omega
      have hgot := @fgetsLine_cut _ _ (newline :: rest) htext (.inr hroom)
      refine iff_of_false (not_executesLines_of_cut hbuffer hgot ?_ ?_) fun h => hfits h.2.1
      · refine List.ne_nil_of_length_pos ?_
        rw [List.length_take, Nat.min_eq_left hroom]
        decide
      · exact (List.takeWhile_prefix _).length_le.trans (List.length_take_le' _ _)

/-- A client whose image is empty, on a stream that quits. -/
theorem executesInput_quit :
    ExecutesInput ⟨[], .onlyImage⟩ (List.replicate commandBufferLength 0)
      [113, 117, 105, 116, 10] :=
  (executesInput_iff _ _ _ List.length_replicate).mpr ⟨rfl, by decide, by decide, trivial⟩

/-- `help` and the end of the input: the client goes on to dispatch `hel`. -/
theorem not_executesInput_help :
    inputLines [104, 101, 108, 112, 10] = [⟨[104, 101, 108, 112], true⟩] ∧
      ¬ ExecutesInput ⟨[], .onlyImage⟩ (List.replicate commandBufferLength 0)
        [104, 101, 108, 112, 10] := by
  refine ⟨by decide, ?_⟩
  obtain ⟨buffer', hread, _, hbytes⟩ :=
    @readCommand_fits (List.replicate commandBufferLength 0) [104, 101, 108, 112] []
      List.length_replicate (by decide) (by decide) (by decide)
  have hline : bufferLine buffer' = bufferLine [104, 101, 108, 112] := CString.ext hbytes
  intro hexecutes
  have hrest := (executesLines_iff_of_same hread hbytes).mp hexecutes
  rw [hline] at hrest
  exact not_executesLines_nil _ _ _ hrest

end MiniExt
