import Mathlib.Data.List.TakeDrop

namespace MiniExt.Lib

/-!
# Lib — strings in buffers

The functions of a C string library on arrays of a fixed length.  A function that touches an
index outside its array has no result.

* `Buffer.store`, `Buffer.copy` — writes, the length of the array unchanged;
* `Buffer.strlen`, `Buffer.strchr`, `Buffer.strcmp` — searches and comparisons that stop at the
  terminator, if there is one;
* `Buffer.Holds` — an array that starts with a string and its terminator;
* `Holds.strlen`, `Holds.strchr`, `Holds.strcmp`, … — what the functions come to there.
-/

namespace Buffer

section Functions

variable {α : Type} [DecidableEq α] [OfNat α 0]

/-- Store one element. -/
def store (buffer : List α) (i : Nat) (x : α) : Option (List α) :=
  if i < buffer.length then some (buffer.set i x) else none

/-- Copy `n` elements from one array to another. -/
def copy (dest : List α) (i : Nat) (source : List α) (j n : Nat) : Option (List α) :=
  if i + n ≤ dest.length ∧ j + n ≤ source.length then
    some (dest.take i ++ (source.drop j).take n ++ dest.drop (i + n))
  else none

/-- The distance from an index to the next terminator. -/
def strlen (buffer : List α) (start : Nat) : Option Nat :=
  (buffer.drop start).findIdx? (· = 0)

/-- The index of the first `c` from an index on; the inner result is `none` where the
    terminator comes first. -/
def strchr (buffer : List α) (c : α) (start : Nat) : Option (Option Nat) :=
  match (buffer.drop start).findIdx? (fun x => x = c ∨ x = 0) with
  | none => none
  | some k => if buffer[start + k]? = some c then some (some (start + k)) else some none

/-- Whether two arrays start with the same string, compared up to the first difference. -/
def strcmp : (buffer buffer' : List α) → Option Bool
  | x :: buffer, y :: buffer' =>
    if x = y then if x = 0 then some true else strcmp buffer buffer' else some false
  | _, _ => none

/-- The array starts with a string and its terminator. -/
def Holds (buffer s : List α) : Prop := 0 ∉ s ∧ ∃ tail, buffer = s ++ 0 :: tail

end Functions

/-! ### Searches -/

section Searches

variable {α : Type} {buffer s t : List α} {start : Nat} {c x : α}

/-- A search ends at the first element that is looked for. -/
theorem findIdx?_append_stop {p : α → Bool} (hs : ∀ y ∈ s, p y = false) (hx : p x = true) :
    (s ++ x :: t).findIdx? p = some s.length := by
  have hnone : s.findIdx? p = none := List.findIdx?_eq_none_iff.mpr hs
  rw [List.findIdx?_append, hnone, List.findIdx?_cons, if_pos hx]
  simp

variable [OfNat α 0]

/-- What is left of a buffer holds what is left of its string. -/
theorem Holds.drop (h : Holds buffer s) (hstart : start ≤ s.length) :
    Holds (buffer.drop start) (s.drop start) := by
  obtain ⟨hz, tail, rfl⟩ := h
  refine ⟨fun hm => hz (List.mem_of_mem_drop hm), tail, ?_⟩
  rw [List.drop_append_of_le_length hstart]

variable [DecidableEq α]

/-- `strlen` from inside a string counts to its end. -/
theorem Holds.strlen (h : Holds buffer s) (hstart : start ≤ s.length) :
    Buffer.strlen buffer start = some (s.length - start) := by
  obtain ⟨hz, tail, heq⟩ := h.drop hstart
  unfold Buffer.strlen
  rw [heq, findIdx?_append_stop, List.length_drop]
  · intro y hy
    rw [decide_eq_false_iff_not]
    rintro rfl
    exact hz hy
  · exact decide_eq_true rfl

/-- A search in an array that holds a string is one in the string. -/
theorem Holds.strchr (h : Holds buffer s) (hc : c ≠ 0) (hstart : start ≤ s.length) :
    Buffer.strchr buffer c start =
      some (((s.drop start).findIdx? (· = c)).map (· + start)) := by
  obtain ⟨hz, tail, heq⟩ := h.drop hstart
  have hdrop : ∀ k, buffer[start + k]? = (s.drop start ++ 0 :: tail)[k]? := by
    intro k
    rw [← heq, List.getElem?_drop]
  unfold Buffer.strchr
  simp only [heq, hdrop]
  generalize s.drop start = u at hz
  rcases hfound : u.findIdx? (· = c) with _ | k
  · -- the terminator comes first
    have hnone := List.findIdx?_eq_none_iff.mp hfound
    rw [findIdx?_append_stop (p := fun x => x = c ∨ x = 0)]
    · simp only [List.getElem?_append_right (Nat.le_refl _), Nat.sub_self, List.getElem?_cons_zero,
        Option.some_inj]
      rw [if_neg hc.symm]
      rfl
    · intro y hy
      have hne := of_decide_eq_false (hnone y hy)
      rw [decide_eq_false_iff_not]
      rintro (rfl | rfl)
      · exact hne rfl
      · exact hz hy
    · exact decide_eq_true (Or.inr rfl)
  · -- the byte comes first
    obtain ⟨hk, hat, hbefore⟩ := List.findIdx?_eq_some_iff_getElem.mp hfound
    have hfirst : (u ++ 0 :: tail).findIdx? (fun x => x = c ∨ x = 0) = some k := by
      rw [List.findIdx?_append, List.findIdx?_eq_some_iff_getElem.mpr ⟨hk, ?_, ?_⟩]
      · rfl
      · exact decide_eq_true (Or.inl (of_decide_eq_true hat))
      · intro j hj
        have hne := of_decide_eq_false (Bool.eq_false_iff.mpr (hbefore j hj))
        rw [Bool.not_eq_true, decide_eq_false_iff_not]
        rintro (heq' | heq')
        · exact hne heq'
        · exact hz (heq' ▸ List.getElem_mem _)
    rw [hfirst]
    have hget : (u ++ 0 :: tail)[k]? = some c := by
      rw [List.getElem?_append_left hk, List.getElem?_eq_getElem hk, of_decide_eq_true hat]
    simp only [hget, if_true, Option.map_some, Nat.add_comm]

/-- A comparison of arrays that hold strings is one of the strings. -/
theorem Holds.strcmp {buffer' : List α} (h : Holds buffer s) (h' : Holds buffer' t) :
    Buffer.strcmp buffer buffer' = some (decide (s = t)) := by
  obtain ⟨hz, tail, rfl⟩ := h
  obtain ⟨hz', tail', rfl⟩ := h'
  induction s generalizing t with
  | nil =>
    cases t with
    | nil => simp [Buffer.strcmp]
    | cons y t =>
      have hy : (0 : α) ≠ y := fun heq => hz' (heq ▸ List.mem_cons_self ..)
      simp [Buffer.strcmp, hy]
  | cons x s ih =>
    have hx : x ≠ 0 := fun heq => hz (heq ▸ List.mem_cons_self ..)
    cases t with
    | nil => simp [Buffer.strcmp, hx]
    | cons y t =>
      have hrest := ih (fun hm => hz (List.mem_cons_of_mem _ hm))
        fun hm => hz' (List.mem_cons_of_mem _ hm)
      by_cases hxy : x = y
      · subst hxy
        simp only [List.cons_append, Buffer.strcmp, if_true, if_neg hx, hrest, List.cons.injEq,
          true_and]
      · simp [Buffer.strcmp, hxy]

end Searches

/-! ### Writes -/

section Writes

variable {α : Type} {buffer dest source s t : List α} {j n : Nat}

/-- A copy to the start of an array. -/
theorem copy_start (hdest : n ≤ dest.length) (hsource : j + n ≤ source.length) :
    copy dest 0 source j n = some ((source.drop j).take n ++ dest.drop n) := by
  unfold copy
  rw [if_pos ⟨by omega, hsource⟩, List.take_zero, List.nil_append, Nat.zero_add]

variable [OfNat α 0]

/-- A string copied to the start of an array, then its terminator. -/
theorem holds_set (hz : 0 ∉ s) (hlen : s.length < buffer.length) (hs : buffer.take s.length = s) :
    Holds (buffer.set s.length 0) s := by
  refine ⟨hz, buffer.drop (s.length + 1), ?_⟩
  rw [List.set_eq_take_append_cons_drop, if_pos hlen, hs]

/-- An array holds the string up to its first terminator. -/
theorem holds_takeWhile [DecidableEq α] (s t : List α) :
    Holds (s ++ 0 :: t) (s.takeWhile (· ≠ 0)) := by
  induction s with
  | nil => exact ⟨List.not_mem_nil, t, rfl⟩
  | cons x s ih =>
    by_cases hx : x = 0
    · subst hx
      rw [List.takeWhile_cons_of_neg (by simp)]
      exact ⟨List.not_mem_nil, s ++ 0 :: t, rfl⟩
    · obtain ⟨hz, tail, heq⟩ := ih
      rw [List.takeWhile_cons_of_pos (by simpa using hx)]
      refine ⟨?_, tail, ?_⟩
      · exact List.not_mem_cons_of_ne_of_not_mem (Ne.symm hx) hz
      · rw [List.cons_append, heq, List.cons_append]

/-- A copy that reaches past the terminator of a string copies the string. -/
theorem Holds.copy (h : Holds source s) (hj : j ≤ s.length) (hn : s.length < j + n) :
    Holds ((source.drop j).take n ++ t) (s.drop j) := by
  obtain ⟨hz, tail, heq⟩ := h.drop hj
  refine ⟨hz, tail.take (n - (s.drop j).length - 1) ++ t, ?_⟩
  have hlen : (s.drop j).length < n := by
    rw [List.length_drop]
    omega
  obtain ⟨m, hm⟩ : ∃ m, n - (s.drop j).length = m + 1 := ⟨n - (s.drop j).length - 1, by omega⟩
  rw [heq, List.take_append, List.take_of_length_le (Nat.le_of_lt hlen), hm, List.take_succ_cons,
    Nat.add_sub_cancel, List.append_assoc, List.cons_append]

end Writes

end Buffer

end MiniExt.Lib
