import MiniExt.Lib.Buffers
import MiniExt.Paths

namespace MiniExt

open Lib

/-!
# `split_path` in memory

`split_path` works on three buffers of `buffer_length` bytes: a local copy of the path and the
two results.  Here it runs on those buffers, whatever they hold at first, and a touched index
outside one of them ends it without a result.

* `lastSlashIn`, `splitPathIn` — the function, statement by statement;
* `splitPathIn_refines` — it leaves the two parts `splitPath` computes, as strings;
* `SplitsExactly`, `splitPathIn_splits` — what the two parts are, for every path.
-/

/-! ### The function -/

/-- The loop to the last slash.  Without turns left it has no result. -/
def lastSlashIn (buffer : List UInt8) :
    (fuel : Nat) → (slashPos : Option Nat) → (lastSlashPos : Nat) → Option Nat
  | _, none, last => some last
  | 0, some _, _ => none
  | fuel + 1, some pos, _ => do
    let next ← Buffer.strchr buffer slash (pos + 1)
    lastSlashIn buffer fuel next pos

/-- The part of `split_path` after the path was copied and trimmed. -/
def cutIn (buffer parentPath dirname : List UInt8) : Option (Bool × List UInt8 × List UInt8) := do
  let length ← Buffer.strlen buffer 0
  let pathLength := length % 2 ^ 16
  let firstChar ← buffer[0]?
  if firstChar ≠ slash ∨ pathLength = 0 then return (false, parentPath, dirname)
  else
    let slashPos ← Buffer.strchr buffer slash 1
    let lastSlashPos ← lastSlashIn buffer buffer.length slashPos 0
    let parentPath ← Buffer.copy parentPath 0 buffer 0 (lastSlashPos + 1)
    let parentPath ← Buffer.store parentPath (lastSlashPos + 1) 0
    let parentLength ← Buffer.strlen parentPath 0
    -- the length of the second copy is a `size_t`
    let dirname ← Buffer.copy dirname 0 buffer (lastSlashPos + 1)
      ((bufferLength + 2 ^ 64 - parentLength) % 2 ^ 64)
    let dirLength ← Buffer.strlen dirname 0
    return (decide (dirLength ≠ 0), parentPath, dirname)

/-- `split_path`, on its three buffers: what it returns, and the two results. -/
def splitPathIn (path buffer parentPath dirname : List UInt8) :
    Option (Bool × List UInt8 × List UInt8) := do
  let length ← Buffer.strlen path 0
  let pathLength := length % 2 ^ 16
  let buffer ← Buffer.copy buffer 0 path 0 pathLength
  let lastChar ← if pathLength = 0 then none else buffer[pathLength - 1]?
  let buffer ←
    if lastChar ≠ slash then Buffer.store buffer pathLength 0
    else Buffer.store buffer (pathLength - 1) 0
  cutIn buffer parentPath dirname

/-! ### Its steps -/

section Steps

variable {path buffer s : List UInt8}

/-- The loop ends, at the slash `lastSlash` finds. -/
theorem lastSlashIn_eq (h : Buffer.Holds buffer s) (fuel fuel' start last : Nat)
    (hstart : start ≤ s.length) (hfuel : s.length ≤ fuel + start)
    (hfuel' : s.length ≤ fuel' + start) :
    lastSlashIn buffer fuel (strchr s slash start) last =
      some (lastSlash s fuel' (strchr s slash start) last) := by
  induction fuel generalizing fuel' start last with
  | zero =>
    rcases hfound : strchr s slash start with _ | pos
    · cases fuel' <;> rfl
    · have := strchr_some hfound
      omega
  | succ fuel ih =>
    rcases hfound : strchr s slash start with _ | pos
    · cases fuel' <;> rfl
    · obtain ⟨hle, hlt⟩ := strchr_some hfound
      obtain ⟨fuel', rfl⟩ : ∃ n, fuel' = n + 1 := ⟨fuel' - 1, by omega⟩
      show (Buffer.strchr buffer slash (pos + 1)).bind _ = _
      rw [h.strchr (by decide) hlt, Option.bind_some]
      exact ih fuel' (pos + 1) pos hlt (by omega) (by omega)

/-- The local buffer comes to hold the path without its trailing slash. -/
theorem holds_trimmed (hne : path ≠ []) (hz : 0 ∉ path) (hlen : path.length < buffer.length) :
    Buffer.Holds ((path ++ buffer.drop path.length).set
      (if path.getLast? = some slash then path.length - 1 else path.length) 0) (trimmed path) := by
  have hpos : 0 < path.length := List.length_pos_iff.mpr hne
  have hsize : (path ++ buffer.drop path.length).length = buffer.length := by
    rw [List.length_append, List.length_drop]
    omega
  unfold trimmed
  by_cases hslash : path.getLast? = some slash
  · rw [if_pos hslash, if_pos hslash, ← List.length_dropLast]
    apply Buffer.holds_set
    · exact fun hm => hz (List.mem_of_mem_dropLast hm)
    · rw [hsize, List.length_dropLast]
      omega
    · rw [List.length_dropLast, List.take_append_of_le_length (Nat.sub_le _ _),
        List.dropLast_eq_take]
  · rw [if_neg hslash, if_neg hslash]
    exact Buffer.holds_set hz (hsize ▸ hlen) (List.take_left ..)

/-- **The copy**: what follows works on the trimmed path. -/
theorem splitPathIn_eq (hne : path ≠ []) (hz : 0 ∉ path) (hlen : path.length < bufferLength)
    (hbuffer : buffer.length = bufferLength) (parentPath dirname : List UInt8) :
    ∃ buffer', buffer'.length = bufferLength ∧ Buffer.Holds buffer' (trimmed path) ∧
      splitPathIn (path ++ [0]) buffer parentPath dirname = cutIn buffer' parentPath dirname := by
  have hpos : 0 < path.length := List.length_pos_iff.mpr hne
  have hmax : bufferLength = 1024 := rfl
  have hpath : Buffer.Holds (path ++ [0]) path := ⟨hz, [], rfl⟩
  have hstrlen : Buffer.strlen (path ++ [0]) 0 = some path.length := hpath.strlen (Nat.zero_le _)
  have hmod : path.length % 2 ^ 16 = path.length := Nat.mod_eq_of_lt (by omega)
  have hcopy : Buffer.copy buffer 0 (path ++ [0]) 0 path.length =
      some (path ++ buffer.drop path.length) := by
    rw [Buffer.copy_start (by omega) (by simp), List.drop_zero, List.take_left]
  have hlast : (path ++ buffer.drop path.length)[path.length - 1]? = path.getLast? := by
    rw [List.getElem?_append_left (by omega), List.getLast?_eq_getElem?]
  obtain ⟨x, hx⟩ : ∃ x, path.getLast? = some x := Option.isSome_iff_exists.mp (by simpa using hne)
  refine ⟨_, ?_, holds_trimmed hne hz (hbuffer ▸ hlen), ?_⟩
  · rw [List.length_set, List.length_append, List.length_drop]
    omega
  unfold splitPathIn
  simp only [hstrlen, hmod, hcopy, Option.bind_eq_bind, Option.bind_some, if_neg hpos.ne', hlast,
    hx]
  have hstore : ∀ i < bufferLength, Buffer.store (path ++ buffer.drop path.length) i 0 =
      some ((path ++ buffer.drop path.length).set i 0) := by
    intro i hi
    apply if_pos
    rw [List.length_append, List.length_drop]
    omega
  by_cases hslash : x = slash
  · subst hslash
    rw [if_neg (not_not.mpr rfl), if_pos rfl, hstore _ (by omega), Option.bind_some]
  · have hsome : (some x : Option UInt8) ≠ some slash := fun heq => hslash (Option.some_inj.mp heq)
    rw [if_pos hslash, if_neg hsome, hstore _ (by omega), Option.bind_some]

/-- The first result: the copy up to the last slash, with a terminator after it. -/
theorem copy_parentPath {parentPath : List UInt8} {last : Nat} (h : Buffer.Holds buffer s)
    (hbuffer : buffer.length = bufferLength) (hparent : parentPath.length = bufferLength)
    (hlast : last < s.length) :
    ∃ copied parentPath', Buffer.copy parentPath 0 buffer 0 (last + 1) = some copied ∧
      Buffer.store copied (last + 1) 0 = some parentPath' ∧
      Buffer.Holds parentPath' (s.take (last + 1)) ∧
      Buffer.strlen parentPath' 0 = some (last + 1) := by
  obtain ⟨hz, tail, rfl⟩ := id h
  rw [List.length_append, List.length_cons] at hbuffer
  have htake : (s.take (last + 1)).length = last + 1 := List.length_take_of_le hlast
  have hsize : (s.take (last + 1) ++ parentPath.drop (last + 1)).length = bufferLength := by
    rw [List.length_append, htake, List.length_drop]
    omega
  have hholds : Buffer.Holds ((s.take (last + 1) ++ parentPath.drop (last + 1)).set (last + 1) 0)
      (s.take (last + 1)) := by
    have hset : Buffer.Holds ((s.take (last + 1) ++ parentPath.drop (last + 1)).set
        (s.take (last + 1)).length 0) (s.take (last + 1)) :=
      Buffer.holds_set (fun hm => hz (List.mem_of_mem_take hm)) (by omega)
        (List.take_left ..)
    rwa [htake] at hset
  refine ⟨s.take (last + 1) ++ parentPath.drop (last + 1), _, ?_, if_pos (by omega), hholds, ?_⟩
  · rw [Buffer.copy_start (by omega) (by simp; omega), List.drop_zero,
      List.take_append_of_le_length hlast]
  · rw [hholds.strlen (Nat.zero_le _), htake, Nat.sub_zero]

/-- The second result: the copy from there to the end of the buffer, terminator included. -/
theorem copy_dirname {dirname : List UInt8} {last : Nat} (h : Buffer.Holds buffer s)
    (hbuffer : buffer.length = bufferLength) (hdir : dirname.length = bufferLength)
    (hlast : last < s.length) :
    ∃ dirname', Buffer.copy dirname 0 buffer (last + 1)
        ((bufferLength + 2 ^ 64 - (last + 1)) % 2 ^ 64) = some dirname' ∧
      Buffer.Holds dirname' (s.drop (last + 1)) ∧
      Buffer.strlen dirname' 0 = some (s.drop (last + 1)).length := by
  obtain ⟨_, tail, hparts⟩ := id h
  have hlen : s.length + (tail.length + 1) = bufferLength := by
    rw [← hbuffer, hparts, List.length_append, List.length_cons]
  have hmax : bufferLength = 1024 := rfl
  have hsize : (bufferLength + 2 ^ 64 - (last + 1)) % 2 ^ 64 = bufferLength - (last + 1) := by omega
  have hholds : Buffer.Holds ((buffer.drop (last + 1)).take (bufferLength - (last + 1)) ++
      dirname.drop (bufferLength - (last + 1))) (s.drop (last + 1)) := h.copy hlast (by omega)
  refine ⟨_, ?_, hholds, hholds.strlen (Nat.zero_le _)⟩
  rw [hsize]
  exact Buffer.copy_start (by omega) (by omega)

/-- What `cutIn` leaves where the buffer holds a string. -/
theorem cutIn_refines {parentPath dirname : List UInt8} (h : Buffer.Holds buffer s)
    (hbuffer : buffer.length = bufferLength) (hparent : parentPath.length = bufferLength)
    (hdir : dirname.length = bufferLength) :
    ∃ parentPath' dirname', cutIn buffer parentPath dirname =
      some ((cutLast s).isSome, parentPath', dirname') ∧
      ∀ p d, cutLast s = some (p, d) → Buffer.Holds parentPath' p ∧ Buffer.Holds dirname' d := by
  obtain ⟨_, tail, hparts⟩ := id h
  have hmax : bufferLength = 1024 := rfl
  have hlen : s.length + (tail.length + 1) = bufferLength := by
    rw [← hbuffer, hparts, List.length_append, List.length_cons]
  have hmod : s.length % 2 ^ 16 = s.length := Nat.mod_eq_of_lt (by omega)
  have hfirst : buffer[0]? = some (s.head?.getD 0) := by
    rw [hparts]
    cases s <;> rfl
  unfold cutIn
  simp only [h.strlen (Nat.zero_le _), Nat.sub_zero, hmod, hfirst, Option.bind_eq_bind,
    Option.bind_some]
  by_cases hhead : s.head? = some slash
  case neg =>
    -- rejected: the first byte is not a slash
    have hne : s.head?.getD 0 ≠ slash := by
      rcases hs : s.head? with _ | x
      · decide
      · rintro rfl
        exact hhead hs
    have hcut : cutLast s = none := if_pos hhead
    rw [if_pos (Or.inl hne), hcut]
    refine ⟨parentPath, dirname, rfl, ?_⟩
    rintro p d ⟨⟩
  have hpos : 0 < s.length := by
    cases s with
    | nil => cases hhead
    | cons x s => exact Nat.zero_lt_succ _
  have hcond : ¬ (s.head?.getD 0 ≠ slash ∨ s.length = 0) := by
    rw [hhead, not_or, not_not]
    exact ⟨rfl, hpos.ne'⟩
  have hsearch : Buffer.strchr buffer slash 1 = some (strchr s slash 1) :=
    h.strchr (by decide) hpos
  have hloop := lastSlashIn_eq h buffer.length s.length 1 0 hpos (by omega) (by omega)
  have hcut : cutLast s = if s.drop (lastSlash s s.length (strchr s slash 1) 0 + 1) = [] then none
      else some (s.take (lastSlash s s.length (strchr s slash 1) 0 + 1),
        s.drop (lastSlash s s.length (strchr s slash 1) 0 + 1)) := if_neg (not_not.mpr hhead)
  obtain ⟨hat, -⟩ := lastSlash_head hhead
  simp only [if_neg hcond, hsearch, hloop, Option.bind_some]
  generalize lastSlash s s.length (strchr s slash 1) 0 = last at hcut hat
  obtain ⟨hlast, -⟩ := List.getElem?_eq_some_iff.mp hat
  obtain ⟨copied, parentPath', hcopy, hstore, hparent', hparentLength⟩ :=
    copy_parentPath h hbuffer hparent hlast
  obtain ⟨dirname', hcopy', hdir', hdirLength⟩ := copy_dirname h hbuffer hdir hlast
  refine ⟨parentPath', dirname', ?_, ?_⟩
  · simp only [hcopy, hstore, hparentLength, hcopy', hdirLength, Option.bind_some]
    have hsome : decide ((s.drop (last + 1)).length ≠ 0) = (cutLast s).isSome := by
      rw [hcut]
      by_cases hempty : s.drop (last + 1) = []
      · rw [if_pos hempty, hempty]
        rfl
      · rw [if_neg hempty]
        exact decide_eq_true fun hzero => hempty (List.length_eq_zero_iff.mp hzero)
    rw [hsome]
    rfl
  · intro p d hpd
    rw [hcut] at hpd
    by_cases hempty : s.drop (last + 1) = []
    · rw [if_pos hempty] at hpd
      cases hpd
    · rw [if_neg hempty] at hpd
      cases hpd
      exact ⟨hparent', hdir'⟩

end Steps

/-! ### The results -/

/-- **`split_path` in memory** leaves the two parts that `splitPath` computes. -/
theorem splitPathIn_refines (path : CString) (hne : path.bytes ≠ [])
    (hlen : path.bytes.length < bufferLength) {buffer parentPath dirname : List UInt8}
    (hbuffer : buffer.length = bufferLength) (hparent : parentPath.length = bufferLength)
    (hdir : dirname.length = bufferLength) :
    ∃ r parentPath' dirname', splitPath path.bytes = .done r ∧
      splitPathIn (path.bytes ++ [0]) buffer parentPath dirname =
        some (r.isSome, parentPath', dirname') ∧
      ∀ p d, r = some (p, d) → Buffer.Holds parentPath' p ∧ Buffer.Holds dirname' d := by
  obtain ⟨buffer', hbuffer', hholds, heq⟩ :=
    splitPathIn_eq hne path.nulFree hlen hbuffer parentPath dirname
  obtain ⟨parentPath', dirname', hrun, hparts⟩ := cutIn_refines hholds hbuffer' hparent hdir
  exact ⟨cutLast (trimmed path.bytes), parentPath', dirname', splitPath_eq hne (.inl hlen),
    heq.trans hrun, hparts⟩

/-- The result and the two strings `split_path` leaves are the cut of the path without its
    trailing slash. -/
structure SplitsExactly (path : List UInt8) (result : Bool) (parentPath dirname : List UInt8) :
    Prop where
  result_iff : result = true ↔
    (trimmed path).head? = some slash ∧ lastComponent path ≠ []
  parts : result = true → ∃ p d, Buffer.Holds parentPath p ∧ Buffer.Holds dirname d ∧
    p ++ d = trimmed path ∧ p.head? = some slash ∧ p.getLast? = some slash ∧ slash ∉ d

/-- **`split_path` splits exactly** every path that is shorter than its buffers, and touches no
    index outside them. -/
theorem splitPathIn_splits (path : CString) (hne : path.bytes ≠ [])
    (hlen : path.bytes.length < bufferLength) {buffer parentPath dirname : List UInt8}
    (hbuffer : buffer.length = bufferLength) (hparent : parentPath.length = bufferLength)
    (hdir : dirname.length = bufferLength) :
    ∃ result parentPath' dirname', splitPathIn (path.bytes ++ [0]) buffer parentPath dirname =
      some (result, parentPath', dirname') ∧
      SplitsExactly path.bytes result parentPath' dirname' := by
  obtain ⟨r, parentPath', dirname', hsplit, hrun, hparts⟩ :=
    splitPathIn_refines path hne hlen hbuffer hparent hdir
  rw [splitPath_eq hne (.inl hlen)] at hsplit
  injection hsplit with hsplit
  subst hsplit
  refine ⟨_, parentPath', dirname', hrun, cutLast_isSome _, ?_⟩
  intro hsome
  obtain ⟨⟨p, d⟩, hcut⟩ := Option.isSome_iff_exists.mp hsome
  obtain ⟨happend, hhead, hlast, hslash, -⟩ := cutLast_some hcut
  obtain ⟨hp, hd⟩ := hparts p d hcut
  exact ⟨p, d, hp, hd, happend, hhead, hlast, hslash⟩

/-- The path `/a//b/`, in buffers of zeros. -/
theorem splitPathIn_splits_doubled :
    ∃ result parentPath' dirname', splitPathIn ([47, 97, 47, 47, 98, 47] ++ [0])
      (List.replicate bufferLength 0) (List.replicate bufferLength 0)
      (List.replicate bufferLength 0) = some (result, parentPath', dirname') ∧
      SplitsExactly [47, 97, 47, 47, 98, 47] result parentPath' dirname' :=
  splitPathIn_splits ⟨[47, 97, 47, 47, 98, 47], by decide⟩ (by decide) (by decide)
    List.length_replicate List.length_replicate List.length_replicate

end MiniExt
