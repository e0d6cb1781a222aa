import MiniExt.Disk.Codec

namespace MiniExt

open Lib

/-!
# Partial transfers

The host moves as many bytes per call as it likes, and `read_while` and `write_while` call it
again until they are done.  How many is left to a schedule; only at the end of the file does
`read` return zero.

* `Schedule`, `hostRead`, `hostWrite` — one transfer;
* `readLoop`, `writeLoop` — the two loops, turn by turn;
* `scheduleHandler` — an image file served by these loops;
* `scheduleHandler_settles` — a `read_while` comes back exactly if the file is long enough.
-/

/-! ### One transfer -/

/-- How many bytes more than one the host is willing to move, at each of its transfers. -/
abbrev Schedule := Nat → Nat

/-- An open file, and the number of transfers the host has made. -/
structure Transfers where
  file : ImageFile
  turn : Nat
  deriving DecidableEq, Repr

/-- `read`: at least one byte and at most `count`, and zero exactly at the end of the file. -/
def hostRead (schedule : Schedule) (s : Transfers) (count : Nat) : List UInt8 × Transfers :=
  let bytes := (s.file.bytes.drop s.file.pos).take (min (1 + schedule s.turn) count)
  (bytes, ⟨{ s.file with pos := s.file.pos + bytes.length }, s.turn + 1⟩)

/-- `write`: the first bytes of a buffer, at least one; the rest of the buffer is left. -/
def hostWrite (schedule : Schedule) (s : Transfers) (buffer : List UInt8) :
    List UInt8 × Transfers :=
  let written := buffer.take (1 + schedule s.turn)
  (buffer.drop (1 + schedule s.turn),
    ⟨⟨writeAt 0 s.file.bytes s.file.pos written, s.file.pos + written.length⟩, s.turn + 1⟩)

/-! ### The loops -/

/-- The loop of `read_while`; `buffer` holds the bytes read so far. -/
def readWhileLoop (schedule : Schedule) (toRead : Nat) :
    (fuel : Nat) → (buffer : List UInt8) → Transfers → Option (List UInt8 × Transfers)
  | 0, buffer, s => if buffer.length = toRead then some (buffer, s) else none
  | fuel + 1, buffer, s =>
    if buffer.length = toRead then some (buffer, s)
    else
      let (bytes, s') := hostRead schedule s (toRead - buffer.length)
      readWhileLoop schedule toRead fuel (buffer ++ bytes) s'

/-- The loop of `write_while`; `buffer` holds the bytes that are left. -/
def writeWhileLoop (schedule : Schedule) :
    (fuel : Nat) → (buffer : List UInt8) → Transfers → Option (Bool × Transfers)
  | _, [], s => some (true, s)
  | 0, _ :: _, _ => none
  | fuel + 1, b :: buffer, s =>
    let (rest, s') := hostWrite schedule s (b :: buffer)
    writeWhileLoop schedule fuel rest s'

/-- An image file whose transfers follow a schedule, with a bound on the turns of each loop. -/
def scheduleHandler (schedule : Schedule) (fuel : Nat) : PartialHandler device Transfers Stop
  | .lseek offset, s =>
    some (.done (),
      if offset < 0 then s else { s with file := { s.file with pos := offset.toNat } })
  | .readWhile count, s =>
    (readWhileLoop schedule count fuel [] s).map (Prod.map (fun bytes => .done (some bytes)) id)
  | .writeWhile bytes, s => (writeWhileLoop schedule fuel bytes s).map (Prod.map .done id)

/-! ### Where the loops end -/

section Loops

variable (schedule : Schedule)

/-- What one `read` moves: at least one byte, if one is left and one was asked for. -/
theorem length_hostRead (s : Transfers) (count : Nat) :
    (hostRead schedule s count).1.length =
      min (min (1 + schedule s.turn) count) (s.file.bytes.drop s.file.pos).length :=
  List.length_take

/-- The loop of `read_while` when the file ends too early: it never does. -/
theorem readWhileLoop_short {toRead : Nat} (fuel : Nat) {buffer : List UInt8} {s : Transfers}
    (hshort : (s.file.bytes.drop s.file.pos).length < toRead - buffer.length) :
    readWhileLoop schedule toRead fuel buffer s = none := by
  have hmore : buffer.length ≠ toRead := by omega
  induction fuel generalizing buffer s with
  | zero => exact if_neg hmore
  | succ fuel ih =>
    obtain ⟨bytes, hbytes⟩ : ∃ bytes, (hostRead schedule s (toRead - buffer.length)).1 = bytes :=
      ⟨_, rfl⟩
    have hread : hostRead schedule s (toRead - buffer.length) =
        (bytes, ⟨{ s.file with pos := s.file.pos + bytes.length }, s.turn + 1⟩) := by
      rw [← hbytes]
      rfl
    have hlen := length_hostRead schedule s (toRead - buffer.length)
    rw [hbytes] at hlen
    -- what was read is missing from the file and from the buffer alike
    have hadd : (buffer ++ bytes).length = buffer.length + bytes.length := List.length_append
    have hdrop : (s.file.bytes.drop (s.file.pos + bytes.length)).length =
        (s.file.bytes.drop s.file.pos).length - bytes.length := by
      rw [List.length_drop, List.length_drop]
      omega
    rw [readWhileLoop, if_neg hmore, hread]
    refine ih ?_ (by omega)
    show (s.file.bytes.drop (s.file.pos + bytes.length)).length < toRead - (buffer ++ bytes).length
    omega

/-- The loop of `read_while` when the file is long enough. -/
theorem readWhileLoop_settles {toRead n : Nat} {buffer : List UInt8} {s : Transfers}
    (hn : buffer.length + n = toRead) (hlong : n ≤ (s.file.bytes.drop s.file.pos).length) :
    Settles Transfers.file (fun fuel => readWhileLoop schedule toRead fuel buffer s)
      (some (buffer ++ (s.file.bytes.drop s.file.pos).take n,
        { s.file with pos := s.file.pos + n })) := by
  induction n using Nat.strong_induction_on generalizing buffer s with
  | _ n ih =>
    by_cases hzero : n = 0
    · subst hzero
      have hfull : ∀ fuel, readWhileLoop schedule toRead fuel buffer s = some (buffer, s) := by
        intro fuel
        cases fuel <;> exact if_pos hn
      rw [List.take_zero, List.append_nil]
      exact ⟨s, rfl, fun fuel => .inr (hfull fuel), 0, fun fuel _ => hfull fuel⟩
    · have hmore : buffer.length ≠ toRead := by omega
      have hleft : toRead - buffer.length = n := by omega
      -- one transfer moves `k` bytes
      obtain ⟨k, hk⟩ : ∃ k, min (1 + schedule s.turn) n = k := ⟨_, rfl⟩
      have hread : hostRead schedule s n = ((s.file.bytes.drop s.file.pos).take k,
          ⟨{ s.file with pos := s.file.pos + k }, s.turn + 1⟩) := by
        have hlen : ((s.file.bytes.drop s.file.pos).take k).length = k := by
          rw [List.length_take]
          omega
        simp only [hostRead, hk, hlen]
      have hrest := @ih (n - k) (by omega) (buffer ++ (s.file.bytes.drop s.file.pos).take k)
        ⟨{ s.file with pos := s.file.pos + k }, s.turn + 1⟩
        (by
          rw [List.length_append, List.length_take]
          omega)
        (by
          show n - k ≤ (s.file.bytes.drop (s.file.pos + k)).length
          rw [List.length_drop] at hlong ⊢
          omega)
      have hsplit : (s.file.bytes.drop s.file.pos).take k ++
          (s.file.bytes.drop (s.file.pos + k)).take (n - k) =
          (s.file.bytes.drop s.file.pos).take n := by
        rw [← List.drop_drop, ← List.take_add]
        congr 1
        omega
      have hpos : s.file.pos + k + (n - k) = s.file.pos + n := by omega
      simp only [List.append_assoc, hsplit, hpos] at hrest
      refine hrest.turn (if_neg hmore) ?_
      intro fuel
      rw [readWhileLoop, if_neg hmore, hleft, hread]

/-- The loop of `write_while` ends. -/
theorem writeWhileLoop_settles (buffer : List UInt8) (s : Transfers) :
    Settles Transfers.file (fun fuel => writeWhileLoop schedule fuel buffer s)
      (some (true, ⟨writeAt 0 s.file.bytes s.file.pos buffer, s.file.pos + buffer.length⟩)) := by
  induction hn : buffer.length using Nat.strong_induction_on generalizing buffer s with
  | _ n ih =>
    subst hn
    cases buffer with
    | nil =>
      have hdone : ∀ fuel, writeWhileLoop schedule fuel [] s = some (true, s) := by
        intro fuel
        cases fuel <;> rfl
      exact ⟨s, rfl, fun fuel => .inr (hdone fuel), 0, fun fuel _ => hdone fuel⟩
    | cons b buffer =>
      have hrest := ih _ (by
        rw [List.length_drop, List.length_cons]
        omega) ((b :: buffer).drop (1 + schedule s.turn)) (hostWrite schedule s (b :: buffer)).2 rfl
      have hbytes : writeAt 0 (hostWrite schedule s (b :: buffer)).2.file.bytes
          (hostWrite schedule s (b :: buffer)).2.file.pos
          ((b :: buffer).drop (1 + schedule s.turn)) =
          writeAt 0 s.file.bytes s.file.pos (b :: buffer) := by
        refine (writeAt_append 0 _ _ _ _).trans ?_
        rw [List.take_append_drop]
      have hpos : (hostWrite schedule s (b :: buffer)).2.file.pos +
          ((b :: buffer).drop (1 + schedule s.turn)).length =
          s.file.pos + (b :: buffer).length := by
        show s.file.pos + ((b :: buffer).take (1 + schedule s.turn)).length + _ = _
        rw [Nat.add_assoc, ← List.length_append, List.take_append_drop]
      rw [hbytes, hpos] at hrest
      exact hrest.turn rfl fun fuel => rfl

/-- **Partial transfers make no difference**: under every schedule a call does what it does
    when all transfers are complete, and comes back exactly if it does there. -/
theorem scheduleHandler_settles (c : DeviceCall) (s : Transfers) :
    Settles Transfers.file (fun fuel => scheduleHandler schedule fuel c s)
      (fileHandler c s.file) := by
  cases c with
  | lseek offset =>
    by_cases hneg : offset < 0
    · simp only [scheduleHandler, fileHandler, if_pos hneg]
      exact settles_const (Outcome.done ()) s
    · simp only [scheduleHandler, fileHandler, if_neg hneg]
      exact settles_const (Outcome.done ())
        { s with file := { s.file with pos := offset.toNat } }
  | readWhile count =>
    by_cases hlong : count ≤ (s.file.bytes.drop s.file.pos).length
    · simp only [scheduleHandler, fileHandler, if_pos hlong]
      exact (@readWhileLoop_settles schedule count count [] s (Nat.zero_add count) hlong).map
        (fun bytes => Outcome.done (some bytes)) (u := id) (v := id) fun _ => rfl
    · simp only [scheduleHandler, fileHandler, if_neg hlong]
      intro fuel
      have hloop := @readWhileLoop_short schedule count fuel [] s
        (Nat.lt_of_not_le hlong)
      show (readWhileLoop schedule count fuel [] s).map _ = none
      rw [hloop]
      rfl
  | writeWhile bytes =>
    exact (writeWhileLoop_settles schedule bytes s).map Outcome.done (u := id) (v := id)
      fun _ => rfl

end Loops

end MiniExt
