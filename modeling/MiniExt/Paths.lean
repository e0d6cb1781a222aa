import MiniExt.Runs.Basic

namespace MiniExt

open Lib

/-!
# Paths and their components

`parse_path` takes one component off a path per call.  A path whose components are neither
empty nor too long for the name buffer is parsed into what stands between its slashes.

* `components` — what stands between the slashes of a path;
* `PathFits` — the paths `parse_path` is meant for;
* `Parses` — the calls of `parse_path` on a path, one after the other;
* `PathFits.parses` — on such a path they return its components.
-/

/-! ### The first slash -/

/-- The first `c` of a string, and no `c`. -/
theorem strchr_append {s : List UInt8} {c : UInt8} (hc : c ∉ s) (t : List UInt8) :
    strchr (s ++ c :: t) c 0 = some s.length := by
  have hnone : s.findIdx? (fun x => decide (x = c)) = none := by
    rw [List.findIdx?_eq_none_iff]
    intro x hx
    rw [decide_eq_false_iff_not]
    rintro rfl
    exact hc hx
  unfold strchr
  rw [List.drop_zero, List.findIdx?_append, hnone, List.findIdx?_cons]
  simp

/-- A byte that is not there is not found. -/
theorem strchr_notMem {s : List UInt8} {c : UInt8} (hc : c ∉ s) : strchr s c 0 = none := by
  by_contra hsome
  obtain ⟨pos, hpos⟩ := Option.ne_none_iff_exists'.mp hsome
  exact hc ((strchr_split hpos).2 ▸ List.mem_append_right _ (List.mem_cons_self ..))

/-- After its first byte, a path is searched like what follows that byte. -/
theorem strchr_cons_one (x : UInt8) (t : List UInt8) :
    strchr (x :: t) slash 1 = (strchr t slash 0).map (· + 1) := by
  unfold strchr
  rw [List.drop_succ_cons, List.drop_zero, Option.map_map]
  rfl

/-- A slash at the beginning is found there. -/
theorem strchr_slash_cons (t : List UInt8) : strchr (slash :: t) slash 0 = some 0 := rfl

/-! ### Components -/

/-- The components of a path: what stands between its slashes, after the first one.  After a
    trailing slash stands an empty component. -/
def components (path : List UInt8) : List (List UInt8) := (path.drop 1).splitOn slash

/-- There is at least one component, maybe an empty one. -/
theorem components_ne_nil (path : List UInt8) : components path ≠ [] := List.splitOn_ne_nil _ _

/-- The component of a path of one name. -/
theorem components_last {c : List UInt8} (hc : slash ∉ c) : components (slash :: c) = [c] :=
  List.splitOn_eq_singleton hc

/-- The components of a path of several names. -/
theorem components_cons {c : List UInt8} (hc : slash ∉ c) (t : List UInt8) :
    components (slash :: (c ++ slash :: t)) = c :: components (slash :: t) :=
  List.splitOn_append_cons_self_of_not_mem hc t

/-- A path that starts with a slash, without empty components but the one a trailing slash
    leaves, all of them short enough for the terminator that `parse_path` stores one past its
    place. -/
structure PathFits (info : FsInfo) (path : List UInt8) : Prop where
  absolute : path.head? = some slash
  interior : ∀ c ∈ (components path).dropLast, c ≠ []
  short : ∀ c ∈ components path, c.length + 2 ≤ info.maxPathLen

/-! ### The calls of `parse_path` -/

section Parses

variable {info : FsInfo} {c t path : List UInt8}

/-- A text without zeros is a string as it stands. -/
theorem takeWhile_ne_zero (hz : 0 ∉ c) : c.takeWhile (· ≠ 0) = c := by
  rw [List.takeWhile_eq_self_iff]
  intro x hx
  simpa using fun heq : x = 0 => hz (heq ▸ hx)

/-- The path that is one slash. -/
theorem parsePath_root (hlen : 2 ≤ info.maxPathLen) :
    parsePath info [slash] = .done ([slash], none) := by
  unfold parsePath
  rw [if_pos rfl, if_neg (Nat.not_lt.mpr hlen)]

/-- The last component. -/
theorem parsePath_last (hlt : info.maxPathLen < 2 ^ 16) (hc : slash ∉ c) (hne : c ≠ [])
    (hz : 0 ∉ c) (hlen : c.length + 2 ≤ info.maxPathLen) :
    parsePath info (slash :: c) = .done (c, none) := by
  have hpos : 0 < c.length := List.length_pos_iff.mpr hne
  have hroot : slash :: c ≠ [slash] := fun heq => hne (List.cons.inj heq).2
  have hsecond : strchr (slash :: c) slash (0 + 1) = none := by
    rw [strchr_cons_one, strchr_notMem hc]
    rfl
  -- the length of the path minus one, for the slash it starts with
  have hlength : componentLength (slash :: c) 0 none = c.length := by
    show ((slash :: c).length % 2 ^ 16 + 2 ^ 16 - 1) % 2 ^ 16 = c.length
    rw [List.length_cons]
    omega
  have hname : ((((slash :: c) ++ [0]).drop (0 + 1)).take c.length).takeWhile (· ≠ 0) = c := by
    rw [List.cons_append, List.drop_succ_cons, List.drop_zero, List.take_left, takeWhile_ne_zero hz]
  unfold parsePath
  rw [if_neg hroot]
  simp only [strchr_slash_cons, hsecond, hlength, List.length_cons, hname]
  rw [if_neg (by omega), if_neg (by omega), if_neg (by omega)]
  rfl

/-- A component that a slash ends. -/
theorem parsePath_cons (hlt : info.maxPathLen < 2 ^ 16) (hc : slash ∉ c) (hne : c ≠ [])
    (hz : 0 ∉ c) (hlen : c.length + 2 ≤ info.maxPathLen) (t : List UInt8) :
    parsePath info (slash :: (c ++ slash :: t)) = .done (c, some (slash :: t)) := by
  have hpos : 0 < c.length := List.length_pos_iff.mpr hne
  have hroot : slash :: (c ++ slash :: t) ≠ [slash] := by simp
  have hsecond : strchr (slash :: (c ++ slash :: t)) slash (0 + 1) = some (c.length + 1) := by
    rw [strchr_cons_one, strchr_append hc]
    rfl
  have hlength : componentLength (slash :: (c ++ slash :: t)) 0 (some (c.length + 1)) =
      c.length := by
    show (c.length + 1 - 0 - 1) % 2 ^ 16 = c.length
    omega
  have hname : ((((slash :: (c ++ slash :: t)) ++ [0]).drop (0 + 1)).take c.length).takeWhile
      (· ≠ 0) = c := by
    rw [List.cons_append, List.drop_succ_cons, List.drop_zero, List.append_assoc, List.take_left,
      takeWhile_ne_zero hz]
  have hrest : (slash :: (c ++ slash :: t)).drop (c.length + 1) = slash :: t := by
    rw [List.drop_succ_cons, List.drop_left]
  unfold parsePath
  rw [if_neg hroot]
  simp only [strchr_slash_cons, hsecond, hlength, hname, Option.map_some, hrest]
  have hinside : ¬ max ((slash :: (c ++ slash :: t)).length + 1) commandBufferLength <
      0 + 1 + c.length := by
    simp only [List.length_cons, List.length_append]
    omega
  rw [if_neg (by omega), if_neg hinside, if_neg (by omega)]

/-- The calls of `parse_path` on a path, one after the other, and the names they return.  The
    path that is one slash has the empty component. -/
inductive Parses (info : FsInfo) : (path : List UInt8) → (names : List (List UInt8)) → Prop where
  | root : parsePath info [slash] = .done ([slash], none) → Parses info [slash] [[]]
  | last {c : List UInt8} : c ≠ [] → slash ∉ c → 0 ∉ c → c.length + 2 ≤ info.maxPathLen →
    parsePath info (slash :: c) = .done (c, none) → Parses info (slash :: c) [c]
  | cons {c t : List UInt8} {cs : List (List UInt8)} : c ≠ [] → slash ∉ c → 0 ∉ c →
    c.length + 2 ≤ info.maxPathLen →
    parsePath info (slash :: (c ++ slash :: t)) = .done (c, some (slash :: t)) →
    Parses info (slash :: t) cs → Parses info (slash :: (c ++ slash :: t)) (c :: cs)

/-- A path that parses has a component. -/
theorem Parses.ne_nil {cs : List (List UInt8)} (h : Parses info path cs) : cs ≠ [] := by
  cases h <;> exact List.cons_ne_nil _ _

/-- **A path that fits** is parsed into its components. -/
theorem PathFits.parses (h : PathFits info path) (hlt : info.maxPathLen < 2 ^ 16)
    (hz : 0 ∉ path) : Parses info path (components path) := by
  induction hn : path.length using Nat.strong_induction_on generalizing path with
  | _ n ih =>
    obtain ⟨t, rfl⟩ : ∃ t, path = slash :: t := List.head?_eq_some_iff.mp h.absolute
    rcases hslash : strchr t slash 0 with _ | pos
    · have hc : slash ∉ t := strchr_eq_none hslash
      have hshort := h.short
      rw [components_last hc, List.forall_mem_singleton] at hshort
      by_cases hempty : t = []
      · subst hempty
        exact .root (parsePath_root ((Nat.zero_add 2).symm.le.trans hshort))
      · have hz' : 0 ∉ t := fun hm => hz (List.mem_cons_of_mem _ hm)
        rw [components_last hc]
        exact .last hempty hc hz' hshort (parsePath_last hlt hc hempty hz' hshort)
    · obtain ⟨hc, hsplit⟩ := strchr_split hslash
      generalize t.take pos = c at hc hsplit
      generalize hrest : t.drop (pos + 1) = rest at hsplit
      have hshorter : rest.length < t.length := by
        obtain ⟨-, hlt⟩ := strchr_some hslash
        rw [← hrest, List.length_drop]
        omega
      subst hsplit
      have hinterior := h.interior
      have hshort := h.short
      rw [components_cons hc] at hinterior hshort ⊢
      rw [List.dropLast_cons_of_ne_nil (components_ne_nil _), List.forall_mem_cons] at hinterior
      rw [List.forall_mem_cons] at hshort
      have hz' : 0 ∉ c := fun hm => hz (List.mem_cons_of_mem _ (List.mem_append_left _ hm))
      refine .cons hinterior.1 hc hz' hshort.1
        (parsePath_cons hlt hc hinterior.1 hz' hshort.1 rest) ?_
      refine ih _ ?_ ⟨rfl, hinterior.2, hshort.2⟩ ?_ rfl
      · rw [← hn, List.length_cons, List.length_cons]
        omega
      · exact fun hm => hz (List.mem_cons_of_mem _ (List.mem_append_right _ hm))

end Parses

/-! ### The last component -/

/-- A path without a trailing slash. -/
def trimmed (path : List UInt8) : List UInt8 :=
  if path.getLast? = some slash then path.dropLast else path

/-- The last component of a path: what follows its last slash, a trailing one aside. -/
def lastComponent (path : List UInt8) : List UInt8 :=
  let trimmed := if path.getLast? = some slash then path.dropLast else path
  (trimmed.reverse.takeWhile (· ≠ slash)).reverse

/-- A string that starts with a slash, cut after its last one, unless nothing follows that. -/
def cutLast (buffer : List UInt8) : Option (List UInt8 × List UInt8) :=
  if buffer.head? ≠ some slash then none
  else
    let last := lastSlash buffer buffer.length (strchr buffer slash 1) 0
    if buffer.drop (last + 1) = [] then none
    else some (buffer.take (last + 1), buffer.drop (last + 1))

/-- The loop of `split_path` stops at a slash that has none after it. -/
theorem lastSlash_spec (buffer : List UInt8) (fuel start last : Nat)
    (hlast : buffer[last]? = some slash) (hnext : start = last + 1)
    (hfuel : buffer.length ≤ fuel + start) :
    buffer[lastSlash buffer fuel (strchr buffer slash start) last]? = some slash ∧
      slash ∉ buffer.drop (lastSlash buffer fuel (strchr buffer slash start) last + 1) := by
  induction fuel generalizing start last with
  | zero =>
    rcases hnone : strchr buffer slash start with _ | pos
    · subst hnext
      exact ⟨hlast, strchr_eq_none hnone⟩
    · have := strchr_some hnone
      omega
  | succ fuel ih =>
    rcases hfound : strchr buffer slash start with _ | pos
    · subst hnext
      exact ⟨hlast, strchr_eq_none hfound⟩
    · have hpos := strchr_some hfound
      exact ih (pos + 1) pos (getElem?_strchr hfound) rfl (by omega)

/-- What follows the last slash of a list is its last component. -/
theorem takeWhile_reverse_of_last {buffer : List UInt8} {last : Nat}
    (hlast : buffer[last]? = some slash) (hnone : slash ∉ buffer.drop (last + 1)) :
    (buffer.reverse.takeWhile (· ≠ slash)).reverse = buffer.drop (last + 1) := by
  obtain ⟨hlt, heq⟩ := List.getElem?_eq_some_iff.mp hlast
  have hparts : buffer = buffer.take last ++ slash :: buffer.drop (last + 1) := by
    conv_lhs => rw [← List.take_append_drop last buffer, List.drop_eq_getElem_cons hlt, heq]
  have hwhile : ∀ x ∈ (buffer.drop (last + 1)).reverse, decide (x ≠ slash) = true := by
    intro x hx
    rw [decide_eq_true_iff]
    rintro rfl
    exact hnone (List.mem_reverse.mp hx)
  have hrev : buffer.reverse = (buffer.drop (last + 1)).reverse ++
      slash :: (buffer.take last).reverse := by
    conv_lhs => rw [hparts]
    rw [List.reverse_append, List.reverse_cons, List.append_assoc]
    rfl
  rw [hrev, List.takeWhile_append_of_pos hwhile]
  simp

/-- Where a string that starts with a slash is cut. -/
theorem lastSlash_head {buffer : List UInt8} (hhead : buffer.head? = some slash) :
    let last := lastSlash buffer buffer.length (strchr buffer slash 1) 0
    buffer[last]? = some slash ∧ slash ∉ buffer.drop (last + 1) := by
  rw [List.head?_eq_getElem?] at hhead
  exact lastSlash_spec buffer buffer.length 1 0 hhead rfl (Nat.le_succ_of_le (Nat.le_refl _))

/-- **The cut**: two parts, the first from slash to slash, the second without one. -/
theorem cutLast_some {buffer parentPath name : List UInt8}
    (h : cutLast buffer = some (parentPath, name)) :
    parentPath ++ name = buffer ∧ parentPath.head? = some slash ∧
      parentPath.getLast? = some slash ∧ slash ∉ name ∧
      name = (buffer.reverse.takeWhile (· ≠ slash)).reverse := by
  unfold cutLast at h
  by_cases hhead : buffer.head? = some slash
  case neg =>
    rw [if_pos hhead] at h
    cases h
  rw [if_neg (not_not.mpr hhead)] at h
  dsimp only at h
  obtain ⟨hlast, hnone⟩ := lastSlash_head hhead
  generalize lastSlash buffer buffer.length (strchr buffer slash 1) 0 = last at h hlast hnone
  by_cases hempty : buffer.drop (last + 1) = []
  · rw [if_pos hempty] at h
    cases h
  rw [if_neg hempty] at h
  cases h
  obtain ⟨hlt, heq⟩ := List.getElem?_eq_some_iff.mp hlast
  refine ⟨List.take_append_drop _ _, ?_, ?_, hnone, (takeWhile_reverse_of_last hlast hnone).symm⟩
  · rw [List.head?_take, if_neg (Nat.succ_ne_zero last), hhead]
  · rw [List.take_succ_eq_append_getElem hlt, List.getLast?_concat, heq]

/-- The last component is cut off behind a slash at the beginning, when it is not empty. -/
theorem cutLast_isSome (buffer : List UInt8) :
    (cutLast buffer).isSome ↔
      buffer.head? = some slash ∧ (buffer.reverse.takeWhile (· ≠ slash)).reverse ≠ [] := by
  unfold cutLast
  by_cases hhead : buffer.head? = some slash
  · obtain ⟨hlast, hnone⟩ := lastSlash_head hhead
    rw [if_neg (not_not.mpr hhead), takeWhile_reverse_of_last hlast hnone, and_iff_right hhead]
    dsimp only
    generalize lastSlash buffer buffer.length (strchr buffer slash 1) 0 = last
    by_cases hempty : buffer.drop (last + 1) = []
    · rw [if_pos hempty]
      exact iff_of_false Bool.noConfusion (not_not.mpr hempty)
    · rw [if_neg hempty]
      exact iff_of_true rfl hempty
  · rw [if_pos hhead]
    exact iff_of_false Bool.noConfusion fun h => hhead h.1

/-- **`split_path`** cuts the path without its trailing slash, as long as that fits the
    buffer. -/
theorem splitPath_eq {path : List UInt8} (hne : path ≠ [])
    (hlen : path.length < bufferLength ∨
      path.length = bufferLength ∧ path.getLast? = some slash) :
    splitPath path = .done (cutLast (trimmed path)) := by
  have hpos : 0 < path.length := List.length_pos_iff.mpr hne
  have hbuffer : bufferLength = 1024 := rfl
  have hsize : path.length % 2 ^ 16 = path.length := Nat.mod_eq_of_lt (by omega)
  have hroom : ¬ (path.getLast? ≠ some slash ∧ path.length = bufferLength) := by
    rintro ⟨hlast, hfull⟩
    rcases hlen with hlt | ⟨-, hslash⟩
    · exact absurd hfull hlt.ne
    · exact hlast hslash
  unfold splitPath cutLast trimmed
  rw [hsize]
  dsimp only
  rw [List.take_length, if_neg (by omega), if_neg hroom]
  generalize (if path.getLast? = some slash then path.dropLast else path) = buffer
  by_cases hhead : buffer.head? ≠ some slash
  · rw [if_pos hhead, if_pos hhead]
  rw [if_neg hhead, if_neg hhead]
  split <;> rfl

/-- `split_path` cuts the last component off. -/
theorem splitPath_last {path parentPath name : List UInt8} (hlen : path.length < 2 ^ 16)
    (h : splitPath path = .done (some (parentPath, name))) : name = lastComponent path := by
  have hsize := Nat.mod_eq_of_lt hlen
  have hcut : splitPath path = .done (cutLast (trimmed path)) := by
    by_cases h₁ : path.length = 0 ∨ bufferLength < path.length
    · unfold splitPath at h
      rw [hsize] at h
      dsimp only at h
      rw [if_pos h₁] at h
      cases h
    obtain ⟨hne, hle⟩ := not_or.mp h₁
    by_cases h₂ : path.getLast? ≠ some slash ∧ path.length = bufferLength
    · unfold splitPath at h
      rw [hsize] at h
      dsimp only at h
      rw [List.take_length, if_neg h₁, if_pos h₂] at h
      cases h
    refine splitPath_eq (fun hnil => hne (hnil ▸ rfl)) ?_
    rcases Nat.lt_or_eq_of_le (Nat.le_of_not_lt hle) with hlt | heq
    · exact .inl hlt
    · exact .inr ⟨heq, not_not.mp fun hslash => h₂ ⟨hslash, heq⟩⟩
  rw [hcut] at h
  injection h with h
  exact (cutLast_some h).2.2.2.2

end MiniExt
