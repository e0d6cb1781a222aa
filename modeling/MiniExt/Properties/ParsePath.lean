import MiniExt.Lib.Buffers
import MiniExt.Paths

namespace MiniExt

open Lib

/-!
# `parse_path` in memory

`parse_path` works on the path it is given and on a buffer of `max_path_len` zeros for the name.
Here it runs on those two arrays, and a touched index outside one of them ends it without a
result.  It looks for the first slash of the path wherever that is, and takes the path to start
there when it computes the length of the name.

* `parsePathIn` — the function, statement by statement;
* `parsePathIn_refines` — it leaves the name `parsePath` computes, as a string;
* `IsCut` — a path cut at its first two slashes;
* `ParsesExactly`, `parsesExactly_iff` — the paths of which it takes exactly the first component.
-/

/-! ### The function -/

/-- `parse_path`, on the path and the buffer for the name: the buffer it leaves and the position
    of the second slash, unless it exits. -/
def parsePathIn (path currentFileName : List UInt8) :
    Option (Outcome Stop (List UInt8 × Option Nat)) := do
  if ← Buffer.strcmp path [slash, 0] then
    let currentFileName ← Buffer.copy currentFileName 0 [slash, 0] 0 2
    return .done (currentFileName, none)
  else
    match ← Buffer.strchr path slash 0 with
    | none => return .halted .exit
    | some firstSlashPosition =>
      let length ← Buffer.strlen path 0
      let pathLength := length % 2 ^ 16
      let secondSlashPosition ← Buffer.strchr path slash (firstSlashPosition + 1)
      let currentFileNameLength := match secondSlashPosition with
        | none => (pathLength + 2 ^ 16 - 1) % 2 ^ 16
        | some second => (second - firstSlashPosition - 1) % 2 ^ 16
      if currentFileNameLength = 0 then return .halted .exit
      else
        let currentFileName ←
          Buffer.copy currentFileName 0 path (firstSlashPosition + 1) currentFileNameLength
        -- the terminator is stored one past its place
        let currentFileName ← Buffer.store currentFileName (currentFileNameLength + 1) 0
        return .done (currentFileName, secondSlashPosition)

/-! ### What it comes to -/

section Runs

variable {path buffer : List UInt8} {n : Nat}

/-- The name in a buffer of zeros: the copy, if it and the terminator behind it fit. -/
theorem copy_name (array : List UInt8) (first length n : Nat) :
    ((Buffer.copy (List.replicate n 0) 0 array (first + 1) length).bind fun copied =>
        Buffer.store copied (length + 1) 0) =
      if array.length < first + 1 + length ∨ n ≤ length + 1 then none
      else some ((array.drop (first + 1)).take length ++ List.replicate (n - length) 0) := by
  by_cases hsource : array.length < first + 1 + length
  · rw [if_pos (Or.inl hsource), Buffer.copy, if_neg (by omega), Option.bind_none]
  by_cases hdest : n < length
  · rw [if_pos (Or.inr (by omega)), Buffer.copy, if_neg, Option.bind_none]
    rw [List.length_replicate]
    omega
  have hslice : ((array.drop (first + 1)).take length).length = length := by
    rw [List.length_take_of_le]
    rw [List.length_drop]
    omega
  rw [Buffer.copy_start (by rw [List.length_replicate]; omega) (by omega), Option.bind_some,
    List.drop_replicate, Buffer.store, List.length_append, hslice, List.length_replicate]
  by_cases hterminator : n ≤ length + 1
  · rw [if_neg (by omega), if_pos (Or.inr hterminator)]
  · -- the buffer holds a zero there already
    rw [if_pos (by omega), if_neg (by omega), List.set_append_right _ _ (by omega), hslice,
      List.set_replicate_self]

/-- **The function** on a path other than `/`, somewhere in an array, and a buffer of zeros. -/
theorem parsePathIn_of_holds {array : List UInt8} (path : CString)
    (hpath : Buffer.Holds array path.bytes) (hroot : path.bytes ≠ [slash]) (n : Nat) :
    parsePathIn array (List.replicate n 0) =
      match strchr path.bytes slash 0 with
      | none => some (.halted .exit)
      | some first =>
        let second := strchr path.bytes slash (first + 1)
        let length := componentLength path.bytes first second
        if length = 0 then some (.halted .exit)
        else if array.length < first + 1 + length ∨ n ≤ length + 1 then none
        else some (.done ((array.drop (first + 1)).take length ++
          List.replicate (n - length) 0, second)) := by
  have hname : Buffer.Holds [slash, 0] [slash] := ⟨by decide, [], rfl⟩
  have hslash : slash ≠ 0 := by decide
  have hcmp : Buffer.strcmp array [slash, 0] = some false := by
    rw [hpath.strcmp hname, decide_eq_false hroot]
  have hfirst : Buffer.strchr array slash 0 = some (strchr path.bytes slash 0) :=
    hpath.strchr hslash (Nat.zero_le _)
  have hlength : Buffer.strlen array 0 = some path.bytes.length := hpath.strlen (Nat.zero_le _)
  unfold parsePathIn
  simp only [hcmp, hfirst, hlength, Option.bind_eq_bind, Option.bind_some, Bool.false_eq_true,
    if_false]
  rcases hfound : strchr path.bytes slash 0 with _ | first
  · rfl
  have hsecond : Buffer.strchr array slash (first + 1) =
      some (strchr path.bytes slash (first + 1)) := hpath.strchr hslash (strchr_some hfound).2
  simp only [hsecond, Option.bind_some]
  generalize strchr path.bytes slash (first + 1) = second
  have hcomponent : (match second with
      | none => (path.bytes.length % 2 ^ 16 + 2 ^ 16 - 1) % 2 ^ 16
      | some second => (second - first - 1) % 2 ^ 16) =
      componentLength path.bytes first second := by
    rcases second with _ | second
    · rfl
    · rfl
  rw [hcomponent]
  generalize componentLength path.bytes first second = length
  by_cases hzero : length = 0
  · rw [if_pos hzero, if_pos hzero]
    rfl
  rw [if_neg hzero, if_neg hzero, ← Option.bind_assoc, copy_name]
  split
  · rfl
  · rfl

/-- In an array that ends with the terminator of the path. -/
theorem parsePathIn_eq (path : CString) (hroot : path.bytes ≠ [slash]) (n : Nat) :
    parsePathIn (path.bytes ++ [0]) (List.replicate n 0) =
      match strchr path.bytes slash 0 with
      | none => some (.halted .exit)
      | some first =>
        let second := strchr path.bytes slash (first + 1)
        let length := componentLength path.bytes first second
        if length = 0 then some (.halted .exit)
        else if path.bytes.length + 1 < first + 1 + length ∨ n ≤ length + 1 then none
        else some (.done (((path.bytes ++ [0]).drop (first + 1)).take length ++
          List.replicate (n - length) 0, second)) := by
  have hlength : (path.bytes ++ [0]).length = path.bytes.length + 1 := List.length_append
  rw [parsePathIn_of_holds path ⟨path.nulFree, [], rfl⟩ hroot n, hlength]

/-- On the path `/` it copies the path. -/
theorem parsePathIn_root {array : List UInt8} (hpath : Buffer.Holds array [slash]) (n : Nat) :
    parsePathIn array (List.replicate n 0) =
      if n < 2 then none else some (.done ([slash, 0] ++ List.replicate (n - 2) 0, none)) := by
  have hroot : Buffer.Holds [slash, 0] [slash] := ⟨by decide, [], rfl⟩
  have hcmp : Buffer.strcmp array [slash, 0] = some true := by
    rw [hpath.strcmp hroot, decide_eq_true rfl]
  unfold parsePathIn
  simp only [hcmp, Option.bind_eq_bind, Option.bind_some, if_true]
  by_cases hn : n < 2
  · rw [if_pos hn, Buffer.copy, if_neg, Option.bind_none]
    rw [List.length_replicate]
    omega
  · rw [if_neg hn, Buffer.copy_start (by rw [List.length_replicate]; omega) (Nat.le_refl _),
      List.drop_replicate]
    rfl

/-- A name that is cut out of a path ends at the terminator of the path at the latest. -/
theorem takeWhile_take_terminator (s t : List UInt8) (n : Nat) :
    ((s ++ 0 :: t).take n).takeWhile (· ≠ 0) = ((s ++ [0]).take n).takeWhile (· ≠ 0) := by
  induction s generalizing n with
  | nil =>
    cases n with
    | zero => rfl
    | succ n =>
      rw [List.nil_append, List.nil_append, List.take_succ_cons, List.take_succ_cons,
        List.takeWhile_cons_of_neg (by simp), List.takeWhile_cons_of_neg (by simp)]
  | cons x s ih =>
    cases n with
    | zero => rfl
    | succ n =>
      rw [List.cons_append, List.cons_append, List.take_succ_cons, List.take_succ_cons,
        List.takeWhile_cons, List.takeWhile_cons, ih]

end Runs

/-- A call of `parse_path`, and the same call in memory: a memory error is a touched index outside
    an array, a name is the string in its buffer, and the rest of the path starts at the position
    that is returned. -/
inductive InMemory (path : List UInt8) : Outcome Stop (List UInt8 × Option (List UInt8)) →
    Option (Outcome Stop (List UInt8 × Option Nat)) → Prop where
  | outside : InMemory path (.halted .memoryError) none
  | exits : InMemory path (.halted .exit) (some (.halted .exit))
  | returns {named name : List UInt8} (second : Option Nat) (hname : Buffer.Holds named name) :
    InMemory path (.done (name, second.map path.drop)) (some (.done (named, second)))

/-- **`parse_path` in memory** does what `parsePath` computes, on a path in an array of the client
    or in a longer one. -/
theorem parsePathIn_refines (info : FsInfo) (path : CString) {array : List UInt8}
    (hpath : Buffer.Holds array path.bytes)
    (hlength : array.length = max (path.bytes.length + 1) commandBufferLength) :
    InMemory path.bytes (parsePath info path.bytes)
      (parsePathIn array (List.replicate info.maxPathLen 0)) := by
  by_cases hroot : path.bytes = [slash]
  · rw [hroot] at hpath ⊢
    rw [parsePathIn_root hpath, parsePath, if_pos rfl]
    by_cases hn : info.maxPathLen < 2
    · rw [if_pos hn, if_pos hn]
      exact .outside
    · rw [if_neg hn, if_neg hn]
      exact .returns none ⟨by decide, _, rfl⟩
  rw [parsePathIn_of_holds path hpath hroot, parsePath, if_neg hroot, ← hlength]
  rcases hfirst : strchr path.bytes slash 0 with _ | first
  · exact .exits
  have hbound := (strchr_some hfirst).2
  dsimp only
  generalize strchr path.bytes slash (first + 1) = second
  generalize componentLength path.bytes first second = length
  by_cases hzero : length = 0
  · rw [if_pos hzero, if_pos hzero]
    exact .exits
  rw [if_neg hzero, if_neg hzero]
  by_cases hsource : array.length < first + 1 + length
  · rw [if_pos hsource, if_pos (Or.inl hsource)]
    exact .outside
  rw [if_neg hsource]
  by_cases hdest : info.maxPathLen ≤ length + 1
  · rw [if_pos (Or.inr hdest), if_pos (Or.inr hdest)]
    exact .outside
  · rw [if_neg (by omega), if_neg (by omega)]
    -- behind the copy the buffer still holds the zeros it was given
    obtain ⟨k, hk⟩ : ∃ k, info.maxPathLen - length = k + 1 :=
      ⟨info.maxPathLen - length - 1, by omega⟩
    obtain ⟨_, tail, rfl⟩ := hpath
    rw [hk, List.replicate_succ, List.drop_append_of_le_length hbound,
      List.drop_append_of_le_length hbound, ← takeWhile_take_terminator _ tail]
    exact .returns second (Buffer.holds_takeWhile _ _)

/-! ### Paths cut at their slashes -/

/-- A path cut at its first slash and at the next: `before` stands before the first, the
    component `c` behind it, and `tail` starts with the next, or is empty where there is none. -/
structure IsCut (path before c tail : List UInt8) : Prop where
  path_eq : path = before ++ slash :: (c ++ tail)
  beforeNoSlash : slash ∉ before
  noSlash : slash ∉ c
  ends : tail = [] ∨ tail.head? = some slash

section Cuts

variable {path before c tail : List UInt8}

/-- Every path with a slash has a cut. -/
theorem exists_isCut (h : slash ∈ path) : ∃ before c tail, IsCut path before c tail := by
  rcases hfirst : strchr path slash 0 with _ | first
  · exact absurd h (strchr_eq_none hfirst)
  obtain ⟨hbefore, hpath⟩ := strchr_split hfirst
  rcases hsecond : strchr (path.drop (first + 1)) slash 0 with _ | second
  · exact ⟨_, _, [], by rw [List.append_nil]; exact hpath, hbefore, strchr_eq_none hsecond,
      Or.inl rfl⟩
  · obtain ⟨hc, hrest⟩ := strchr_split hsecond
    exact ⟨_, _, _, by rw [← hrest]; exact hpath, hbefore, hc, Or.inr rfl⟩

/-- The first component of a path is one list. -/
theorem IsCut.unique (h : IsCut path [] c tail) {c' tail' : List UInt8}
    (h' : IsCut path [] c' tail') : c = c' ∧ tail = tail' := by
  have hwhile : ∀ {x t : List UInt8}, slash ∉ x → t = [] ∨ t.head? = some slash →
      (x ++ t).takeWhile (· ≠ slash) = x := by
    intro x t hx ht
    have hpos : ∀ y ∈ x, decide (y ≠ slash) = true := by
      intro y hy
      rw [decide_eq_true_iff]
      rintro rfl
      exact hx hy
    rw [List.takeWhile_append_of_pos hpos]
    rcases ht with rfl | ht
    · exact List.append_nil x
    · obtain ⟨u, rfl⟩ := List.head?_eq_some_iff.mp ht
      rw [List.takeWhile_cons_of_neg (by simp), List.append_nil]
  have heq : c ++ tail = c' ++ tail' := (List.cons.inj (h.path_eq.symm.trans h'.path_eq)).2
  have hc : c = c' := by
    rw [← hwhile h.noSlash h.ends, heq, hwhile h'.noSlash h'.ends]
  exact ⟨hc, List.append_cancel_left (hc ▸ heq)⟩

/-- The first slash of a cut path ends its first part. -/
theorem IsCut.first (h : IsCut path before c tail) : strchr path slash 0 = some before.length := by
  rw [h.path_eq, strchr_append h.beforeNoSlash]

/-- The second slash is where the tail starts. -/
theorem IsCut.second (h : IsCut path before c tail) :
    strchr path slash (before.length + 1) =
      if tail = [] then none else some (before.length + 1 + c.length) := by
  have hdrop : path.drop (before.length + 1) = c ++ tail := by
    rw [h.path_eq, List.drop_length_add_append, List.drop_succ_cons, List.drop_zero]
  have hshift : strchr path slash (before.length + 1) =
      (strchr (c ++ tail) slash 0).map (· + (before.length + 1)) := by
    unfold strchr
    rw [hdrop, List.drop_zero, Option.map_map]
    rfl
  rw [hshift]
  rcases h.ends with rfl | htail
  · rw [if_pos rfl, List.append_nil, strchr_notMem h.noSlash]
    rfl
  · obtain ⟨t, rfl⟩ := List.head?_eq_some_iff.mp htail
    rw [if_neg (List.cons_ne_nil _ _), strchr_append h.noSlash, Option.map_some, Nat.add_comm]

end Cuts

/-! ### The property -/

/-- **`parse_path` takes exactly the first component** of a path, or exits: it touches no index
    outside the path and the buffer; when it returns the path starts with a slash and a component
    that is neither empty nor too long, which the buffer holds, and the position is where the
    component ends; and it exits on a path without a leading slash. -/
structure ParsesExactly (info : FsInfo) (path : List UInt8) : Prop where
  inBounds : parsePathIn (path ++ [0]) (List.replicate info.maxPathLen 0) ≠ none
  parses : ∀ named second, parsePathIn (path ++ [0]) (List.replicate info.maxPathLen 0) =
    some (.done (named, second)) → ∃ c tail, IsCut path [] c tail ∧ c ≠ [] ∧
      c.length < info.maxPathLen ∧ Buffer.Holds named c ∧
      second = if tail = [] then none else some (c.length + 1)
  relative : path.head? ≠ some slash →
    parsePathIn (path ++ [0]) (List.replicate info.maxPathLen 0) = some (.halted .exit)

/-- The paths for which it does: those without a slash; those that start with a slash and a
    component that leaves room for the terminator one past its place; and those whose first two
    slashes stand a multiple of `2 ^ 16` bytes apart, or, with one slash only, whose length is one
    more than such a multiple, so that the length of the name comes to zero. -/
def ParsedWell (info : FsInfo) (path : List UInt8) : Prop :=
  slash ∉ path ∨ ∃ before c tail, IsCut path before c tail ∧
    (before = [] ∧ c ≠ [] ∧ c.length + 2 ≤ info.maxPathLen ∨
      if tail = [] then path.length % 2 ^ 16 = 1 else c.length % 2 ^ 16 = 0)

section Result

variable {info : FsInfo} {path before c tail : List UInt8}

/-- The length that is computed for the name. -/
theorem IsCut.componentLength_eq (h : IsCut path before c tail) :
    componentLength path before.length (strchr path slash (before.length + 1)) =
      if tail = [] then (path.length % 2 ^ 16 + 2 ^ 16 - 1) % 2 ^ 16 else c.length % 2 ^ 16 := by
  rw [h.second]
  by_cases htail : tail = []
  · rw [if_pos htail, if_pos htail]
    rfl
  · rw [if_neg htail, if_neg htail]
    show (before.length + 1 + c.length - before.length - 1) % 2 ^ 16 = c.length % 2 ^ 16
    rw [Nat.add_assoc, Nat.add_sub_cancel_left, Nat.add_sub_cancel_left]

/-- It is zero exactly in the last case of `ParsedWell`. -/
theorem IsCut.componentLength_eq_zero (h : IsCut path before c tail) :
    componentLength path before.length (strchr path slash (before.length + 1)) = 0 ↔
      if tail = [] then path.length % 2 ^ 16 = 1 else c.length % 2 ^ 16 = 0 := by
  rw [h.componentLength_eq]
  by_cases htail : tail = []
  · rw [if_pos htail, if_pos htail]
    omega
  · rw [if_neg htail, if_neg htail]

/-- Behind a leading slash it is the length of the component, as far as 16 bits hold it. -/
theorem IsCut.componentLength_first (h : IsCut path [] c tail) :
    componentLength path 0 (strchr path slash 1) = c.length % 2 ^ 16 := by
  have heq := h.componentLength_eq
  rw [List.length_nil, Nat.zero_add] at heq
  rw [heq]
  by_cases htail : tail = []
  · have hlen : path.length = c.length + 1 := by
      rw [h.path_eq, htail, List.nil_append, List.append_nil, List.length_cons]
    rw [if_pos htail, hlen]
    omega
  · rw [if_neg htail]

/-- Where that is zero the function exits. -/
theorem IsCut.exits_iff (path : CString) (hroot : path.bytes ≠ [slash])
    (h : IsCut path.bytes before c tail) (n : Nat) :
    parsePathIn (path.bytes ++ [0]) (List.replicate n 0) = some (.halted .exit) ↔
      if tail = [] then path.bytes.length % 2 ^ 16 = 1 else c.length % 2 ^ 16 = 0 := by
  rw [← h.componentLength_eq_zero, parsePathIn_eq path hroot, h.first]
  dsimp only
  generalize componentLength path.bytes before.length _ = length
  by_cases hzero : length = 0
  · rw [if_pos hzero]
    exact iff_of_true rfl hzero
  · rw [if_neg hzero]
    refine iff_of_false ?_ hzero
    split
    · exact fun heq => nomatch heq
    · exact fun heq => nomatch Option.some.inj heq

/-- Behind a leading slash it takes the component, as far as 16 bits hold its length. -/
theorem IsCut.parsePathIn_first (path : CString) (hroot : path.bytes ≠ [slash])
    (h : IsCut path.bytes [] c tail) (hlen : c.length % 2 ^ 16 ≠ 0) (n : Nat) :
    parsePathIn (path.bytes ++ [0]) (List.replicate n 0) =
      if n ≤ c.length % 2 ^ 16 + 1 then none
      else some (.done (c.take (c.length % 2 ^ 16) ++ List.replicate (n - c.length % 2 ^ 16) 0,
        if tail = [] then none else some (c.length + 1))) := by
  have hle : c.length % 2 ^ 16 ≤ c.length := Nat.mod_le _ _
  have hpath : path.bytes = slash :: (c ++ tail) := h.path_eq
  have hsecond := h.second
  rw [List.length_nil, Nat.zero_add, Nat.add_comm 1] at hsecond
  -- the copy stays inside the component
  have hinside : ¬ path.bytes.length + 1 < 0 + 1 + c.length % 2 ^ 16 := by
    rw [hpath, List.length_cons, List.length_append]
    omega
  have hcopy : ((path.bytes ++ [0]).drop (0 + 1)).take (c.length % 2 ^ 16) =
      c.take (c.length % 2 ^ 16) := by
    rw [hpath, List.cons_append, List.drop_succ_cons, List.drop_zero, List.append_assoc,
      List.take_append_of_le_length hle]
  rw [parsePathIn_eq path hroot, h.first]
  dsimp only [List.length_nil]
  rw [Nat.zero_add, h.componentLength_first, if_neg hlen, hsecond]
  rw [Nat.zero_add] at hinside hcopy
  rw [hcopy]
  exact if_congr (or_iff_right hinside) rfl rfl

/-- A call that exits has nothing to answer for. -/
theorem parsesExactly_of_exits
    (h : parsePathIn (path ++ [0]) (List.replicate info.maxPathLen 0) = some (.halted .exit)) :
    ParsesExactly info path where
  inBounds := by
    rw [h]
    exact Option.some_ne_none _
  parses := by
    intro named second heq
    rw [h] at heq
    cases heq
  relative := fun _ => h

/-- A component that leaves room for the terminator is taken. -/
theorem IsCut.parsesExactly (path : CString) (h : IsCut path.bytes [] c tail) (hne : c ≠ [])
    (hshort : c.length + 2 ≤ info.maxPathLen) (hlt : info.maxPathLen < 2 ^ 16) :
    ParsesExactly info path.bytes := by
  have hroot : path.bytes ≠ [slash] := by
    rw [h.path_eq]
    exact fun heq => hne (List.append_eq_nil_iff.mp (List.cons.inj heq).2).1
  have hmod : c.length % 2 ^ 16 = c.length := Nat.mod_eq_of_lt (by omega)
  have hpos : 0 < c.length := List.length_pos_iff.mpr hne
  have hrun := h.parsePathIn_first path hroot (by omega) info.maxPathLen
  rw [hmod, if_neg (by omega), List.take_length] at hrun
  refine ⟨?_, fun named second heq => ?_, fun hhead => ?_⟩
  · rw [hrun]
    exact Option.some_ne_none _
  · rw [hrun] at heq
    cases heq
    refine ⟨c, tail, h, hne, by omega, ⟨?_, ?_⟩, rfl⟩
    · exact fun hz => path.nulFree (h.path_eq ▸ List.mem_cons_of_mem _ (List.mem_append_left _ hz))
    · obtain ⟨k, hk⟩ : ∃ k, info.maxPathLen - c.length = k + 1 :=
        ⟨info.maxPathLen - c.length - 1, by omega⟩
      rw [hk, List.replicate_succ]
      exact ⟨_, rfl⟩
  · rw [h.path_eq] at hhead
    exact absurd rfl hhead

end Result

/-- **`parse_path`** takes exactly the first component of a path, or exits, exactly for the paths in
    `ParsedWell`. -/
theorem parsesExactly_iff (info : FsInfo) (hlt : info.maxPathLen < 2 ^ 16) (path : CString)
    (hroot : path.bytes ≠ [slash]) :
    ParsesExactly info path.bytes ↔ ParsedWell info path.bytes := by
  constructor
  · intro h
    by_cases hslash : slash ∈ path.bytes
    case neg => exact Or.inl hslash
    obtain ⟨before, c, tail, hcut⟩ := exists_isCut hslash
    refine Or.inr ⟨before, c, tail, hcut, ?_⟩
    by_cases hzero : if tail = [] then path.bytes.length % 2 ^ 16 = 1 else c.length % 2 ^ 16 = 0
    · exact Or.inr hzero
    -- the call does not exit, so the path starts with its first slash
    have hexits := mt (hcut.exits_iff path hroot info.maxPathLen).mp hzero
    obtain rfl : before = [] := by
      by_contra hne
      apply hexits
      apply h.relative
      rw [hcut.path_eq, List.head?_append_of_ne_nil _ hne]
      exact fun heq => hcut.beforeNoSlash (List.mem_of_head? heq)
    have hlen : c.length % 2 ^ 16 ≠ 0 := by
      rw [← hcut.componentLength_first]
      exact mt hcut.componentLength_eq_zero.mp hzero
    have hrun := hcut.parsePathIn_first path hroot hlen info.maxPathLen
    have hroom : ¬ info.maxPathLen ≤ c.length % 2 ^ 16 + 1 := by
      intro hle
      apply h.inBounds
      rw [hrun, if_pos hle]
    rw [if_neg hroom] at hrun
    obtain ⟨c', tail', hcut', hne, hshort, _⟩ := h.parses _ _ hrun
    obtain ⟨rfl, rfl⟩ := hcut.unique hcut'
    have hmod : c.length % 2 ^ 16 = c.length := Nat.mod_eq_of_lt (hshort.trans hlt)
    exact Or.inl ⟨rfl, hne, by omega⟩
  · rintro (hslash | ⟨before, c, tail, hcut, ⟨rfl, hne, hshort⟩ | hzero⟩)
    · apply parsesExactly_of_exits
      rw [parsePathIn_eq path hroot, strchr_notMem hslash]
    · exact hcut.parsesExactly path hne hshort hlt
    · exact parsesExactly_of_exits ((hcut.exits_iff path hroot _).mpr hzero)

/-- The path `/a/b`. -/
theorem parsesExactly_ab : ParsesExactly defaultFsInfo [47, 97, 47, 98] :=
  (parsesExactly_iff defaultFsInfo (by decide) ⟨[47, 97, 47, 98], by decide⟩ (by decide)).mpr
    (Or.inr ⟨[], [97], [47, 98], ⟨rfl, by decide, by decide, Or.inr rfl⟩,
      Or.inl ⟨rfl, by decide, by decide⟩⟩)

/-- The path `a/b` has no leading slash, and the name `b` is taken from it. -/
theorem not_parsesExactly_relative : ¬ ParsesExactly defaultFsInfo [97, 47, 98] := by
  intro h
  have hexits := h.relative (by decide)
  exact absurd hexits (by decide)

end MiniExt
