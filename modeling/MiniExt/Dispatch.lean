import Mathlib.Algebra.Group.Int.Defs
import MiniExt.Client

namespace MiniExt

open Lib

/-!
# The client — dispatch

One line of input: `parse_command` cuts off its first word, the client compares the word with
its command words, and each branch cuts off its arguments in the same way.  Numbers go through
`strtol` and are cut to the width of their variable.

* `parseCommand`, `strtol` — a word, a number;
* `CommandWord`, `Dispatch`, `dispatch` — the branches of the client;
* `World.turn` — one turn of the client on a line.
-/

/-! ### Words and numbers -/

/-- The separator of a line. -/
def space : UInt8 := 32

/-- A C string from an index on. -/
def CString.drop (s : CString) (n : Nat) : CString :=
  ⟨s.bytes.drop n, fun h => s.nulFree (List.mem_of_mem_drop h)⟩

/-- The first bytes of a C string. -/
def CString.take (s : CString) (n : Nat) : CString :=
  ⟨s.bytes.take n, fun h => s.nulFree (List.mem_of_mem_take h)⟩

/-- `parse_command`: the bytes before the first space, and the string after it (`none` for
    `NULL`). -/
def parseCommand (commandBuffer : CString) : CString × Option CString :=
  match strchr commandBuffer.bytes space 0 with
  | none => (commandBuffer, none)
  | some firstSpace => (commandBuffer.take firstSpace, some (commandBuffer.drop (firstSpace + 1)))

/-- `isspace`: space, tab, line feed, vertical tab, form feed, carriage return. -/
def isSpace (b : UInt8) : Bool := b = 32 ∨ 9 ≤ b ∧ b ≤ 13

/-- The digits of `strtol` in base 10. -/
def isDigit (b : UInt8) : Bool := 48 ≤ b ∧ b ≤ 57

/-- The number that decimal digits denote. -/
def decimalValue (digits : List UInt8) : Nat :=
  digits.foldl (fun n d => 10 * n + (d.toNat - 48)) 0

/-- `strtol` in base 10: white space, a sign, digits; what follows is not looked at, and a
    number beyond a `long` is cut to its range. -/
def strtol (text : List UInt8) : Int :=
  let value digits := (decimalValue (digits.takeWhile isDigit) : Int)
  match text.dropWhile isSpace with
  | 45 :: digits => max (- value digits) (- 2 ^ 63)
  | 43 :: digits => min (value digits) (2 ^ 63 - 1)
  | digits => min (value digits) (2 ^ 63 - 1)

/-- `strtol` into an unsigned variable of `width` bits. -/
def parseNumber (width : Nat) (text : CString) : Nat := (strtol text.bytes % 2 ^ width).toNat

/-! ### The branches -/

/-- The command words, in the order of the branches of the client. -/
inductive CommandWord where
  | help | init | readFs | ls | quit | mkdir | touch | «open» | close | write | read | writeFrom
  | readTo | lseek
  deriving DecidableEq, Repr

/-- The text of a command word. -/
def CommandWord.text : CommandWord → List UInt8
  | .help => [104, 101, 108, 112]
  | .init => [105, 110, 105, 116]
  | .readFs => [114, 101, 97, 100, 95, 102, 115]
  | .ls => [108, 115]
  | .quit => [113, 117, 105, 116]
  | .mkdir => [109, 107, 100, 105, 114]
  | .touch => [116, 111, 117, 99, 104]
  | .open => [111, 112, 101, 110]
  | .close => [99, 108, 111, 115, 101]
  | .write => [119, 114, 105, 116, 101]
  | .read => [114, 101, 97, 100]
  | .writeFrom => [119, 114, 105, 116, 101, 95, 102, 114, 111, 109]
  | .readTo => [114, 101, 97, 100, 95, 116, 111]
  | .lseek => [108, 115, 101, 101, 107]

/-- The chain of `strcmp`s. -/
def findWord (command : List UInt8) : Option CommandWord :=
  [.help, .init, .readFs, .ls, .quit, .mkdir, .touch, .open, .close, .write, .read, .writeFrom,
    .readTo, .lseek].find? fun word => word.text = command

/-- What the client does with a line: it prints its help, rejects the line with a message, runs
    a command, returns, or passes `NULL` to `parse_command`. -/
inductive Dispatch where
  | help
  | rejected
  | run (c : Command)
  | quit
  | memoryError

/-- The guard of a branch: an argument that is there and not empty. -/
def requireArg (arg : Option CString) (branch : CString → Dispatch) : Dispatch :=
  match arg with
  | none => .rejected
  | some arg => if arg.bytes = [] then .rejected else branch arg

/-- A branch with one path. -/
def pathBranch (command : CString → Command) (firstArg : Option CString) : Dispatch :=
  requireArg firstArg fun arg => .run (command (parseCommand arg).1)

/-- A branch with a descriptor and a second argument, after the descriptor was found. -/
def fdBranch (branch : (fd : Nat) → CString → Dispatch) (firstArg : CString) : Dispatch :=
  let (fdText, secondArg) := parseCommand firstArg
  requireArg secondArg fun arg => branch (parseNumber 16 fdText) arg

/-- The branch of `read_to`, after the descriptor: a path and perhaps a size. -/
def readToBranch (fd : Nat) (secondArg : CString) : Dispatch :=
  let (path, thirdArg) := parseCommand secondArg
  match thirdArg with
  | none => .run (.readTo fd path none)
  | some arg =>
    if arg.bytes = [] then .run (.readTo fd path none)
    else .run (.readTo fd path (some (parseNumber 32 (parseCommand arg).1)))

/-- The branches of the client.  Only `read` does not look whether it has an argument. -/
def branch (word : CommandWord) (firstArg : Option CString) : Dispatch :=
  match word with
  | .help => .help
  | .init => .run .init
  | .readFs => .run .readFs
  | .ls => pathBranch .ls firstArg
  | .quit => .quit
  | .mkdir => pathBranch .mkdir firstArg
  | .touch => pathBranch .touch firstArg
  | .open => pathBranch .open firstArg
  | .close => requireArg firstArg fun arg => .run (.close (parseNumber 16 (parseCommand arg).1))
  | .write =>
    requireArg firstArg (fdBranch fun fd arg => .run (.write fd (parseCommand arg).1.bytes))
  | .read =>
    match firstArg with
    | none => .memoryError
    | some arg => fdBranch (fun fd arg => .run (.read fd (parseNumber 32 (parseCommand arg).1))) arg
  | .writeFrom =>
    requireArg firstArg (fdBranch fun fd arg => .run (.writeFrom fd (parseCommand arg).1))
  | .readTo => requireArg firstArg (fdBranch readToBranch)
  | .lseek =>
    requireArg firstArg
      (fdBranch fun fd arg => .run (.lseek fd (parseNumber 32 (parseCommand arg).1)))

/-- What the client does with a line. -/
def dispatch (line : CString) : Dispatch :=
  let (command, firstArg) := parseCommand line
  match findWord command.bytes with
  | none => .rejected
  | some word => branch word firstArg

/-- One turn of the client: what it did, and the world after it. -/
def World.turn (w : World) (line : CString) : Dispatch × World :=
  match dispatch line with
  | .run c => (.run c, w.step c)
  | d => (d, w)

end MiniExt
