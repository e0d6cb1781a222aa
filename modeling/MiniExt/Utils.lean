import MiniExt.Core.Records
import MiniExt.Lib.Program

namespace MiniExt

open Lib

/-!
# Paths

`split_path` and `parse_path` on C strings.  A C string is the list of its bytes before
the terminator; an index the C code forms outside a buffer is a `memoryError`.
-/

/-- Why a command ends before it returns. -/
inductive Stop where
  /-- `exit(EXIT_FAILURE)`. -/
  | exit
  /-- A memory error of the host program: an index out of range, or a use of an object
      after its release. -/
  | memoryError
  /-- The host kills the process (a division by zero). -/
  | abort
  /-- A host call the record store has no answer to: a record that was never written, or
      one outside the regions of the default geometry. -/
  | outside
  deriving DecidableEq, Repr

/-- The separator of a path. -/
def slash : UInt8 := 47

/-- `strchr` from an index on. -/
def strchr (s : List UInt8) (c : UInt8) (start : Nat) : Option Nat :=
  ((s.drop start).findIdx? (· = c)).map (· + start)

/-- The loop of `split_path` that walks to the last slash. -/
def lastSlash (buffer : List UInt8) : (fuel : Nat) → (slashPos : Option Nat) → Nat → Nat
  | fuel + 1, some pos, _ => lastSlash buffer fuel (strchr buffer slash (pos + 1)) pos
  | _, _, last => last

/-- `split_path`: the path without a trailing slash, cut after its last slash.  `none`
    where the C function returns `false`. -/
def splitPath (path : List UInt8) : Outcome Stop (Option (List UInt8 × List UInt8)) :=
  let pathLength := path.length % 2 ^ 16
  -- `buffer[path_length - 1]`, and the `memcpy` of `path_length` bytes before it
  if pathLength = 0 ∨ bufferLength < pathLength then .halted .memoryError
  else
    let copied := path.take pathLength
    if copied.getLast? ≠ some slash ∧ pathLength = bufferLength then .halted .memoryError
    else
      let buffer := if copied.getLast? = some slash then copied.dropLast else copied
      if buffer.head? ≠ some slash then .done none
      else
        let last := lastSlash buffer buffer.length (strchr buffer slash 1) 0
        let parentPath := buffer.take (last + 1)
        let dirname := buffer.drop (last + 1)
        if dirname = [] then .done none else .done (some (parentPath, dirname))

/-- The length of the component after the slash at `first`: up to the next slash, or, without
    one, one less than the length of the path, which a `uint16_t` holds. -/
def componentLength (path : List UInt8) (first : Nat) : (second : Option Nat) → Nat
  | none => (path.length % 2 ^ 16 + 2 ^ 16 - 1) % 2 ^ 16
  | some second => (second - first - 1) % 2 ^ 16

/-- `parse_path`: the first component of a path, and the rest of the path from the slash
    that ends it (`none` for `NULL`).  The path stands in an array of the client, or in a longer
    one; behind its terminator a name ends all the same. -/
def parsePath (info : FsInfo) (path : List UInt8) :
    Outcome Stop (List UInt8 × Option (List UInt8)) :=
  if path = [slash] then
    -- `strcpy(current_file_name, "/")`
    if info.maxPathLen < 2 then .halted .memoryError else .done ([slash], none)
  else
    match strchr path slash 0 with
    | none => .halted .exit
    | some first =>
      let second := strchr path slash (first + 1)
      let length := componentLength path first second
      if length = 0 then .halted .exit
      else if max (path.length + 1) commandBufferLength < first + 1 + length then
        -- `memcpy` reads past the array of the path
        .halted .memoryError
      else if info.maxPathLen < length ∨ info.maxPathLen ≤ length + 1 then
        -- `memcpy` or the store of the terminator, one past its place, leaves the buffer
        .halted .memoryError
      else
        let name := (((path ++ [0]).drop (first + 1)).take length).takeWhile (· ≠ 0)
        .done (name, second.map path.drop)

end MiniExt
