import Mathlib.Data.List.Basic

namespace MiniExt.Lib

/-!
# Lib — first-fit allocation on a mask

A mask is a list of Booleans, `true` where a slot is taken.  `firstFree` is the slot that
a scan from the left finds; taking it is `List.set`.

* `firstFree_eq_some_iff`, `firstFree_eq_none_iff`, `firstFree_eq_find?` — what the scan returns;
* `taken_set` — taking a slot changes that slot only;
* `Packed` — the taken slots are an initial segment; first fit keeps it, and a fresh slot
  then lies above every taken one;
* `free_set` — how many slots are left;
* `TakesOnly` — the masks that grow in given slots only.
-/

/-- The first free slot of a mask. -/
def firstFree (mask : List Bool) : Option Nat := mask.findIdx? (!·)

/-- Slot `i` is taken. -/
def Taken (mask : List Bool) (i : Nat) : Prop := mask[i]? = some true

instance (mask : List Bool) (i : Nat) : Decidable (Taken mask i) :=
  inferInstanceAs (Decidable (_ = _))

/-- How many slots are free. -/
def free (mask : List Bool) : Nat := mask.count false

/-- What is taken lies in the mask. -/
theorem Taken.lt_length {mask : List Bool} {i : Nat} (h : Taken mask i) : i < mask.length :=
  (List.getElem?_eq_some_iff.mp h).1

/-- The scan returns a free slot below which every slot is taken. -/
theorem firstFree_eq_some_iff {mask : List Bool} {i : Nat} :
    firstFree mask = some i ↔
      i < mask.length ∧ ¬ Taken mask i ∧ ∀ j < i, Taken mask j := by
  unfold firstFree
  rw [List.findIdx?_eq_some_iff_getElem]
  constructor
  · rintro ⟨hi, hfree, hbelow⟩
    refine ⟨hi, ?_, fun j hj => ?_⟩
    · simpa [Taken, List.getElem?_eq_getElem hi] using hfree
    · have := hbelow j hj
      simpa [Taken, List.getElem?_eq_getElem (show j < mask.length by omega)] using this
  · rintro ⟨hi, hfree, hbelow⟩
    refine ⟨hi, ?_, fun j hj => ?_⟩
    · simpa [Taken, List.getElem?_eq_getElem hi] using hfree
    · have := hbelow j hj
      simpa [Taken, List.getElem?_eq_getElem (show j < mask.length by omega)] using this

/-- The scan finds nothing exactly when no slot is free. -/
theorem firstFree_eq_none_iff {mask : List Bool} : firstFree mask = none ↔ free mask = 0 := by
  unfold firstFree free
  rw [List.findIdx?_eq_none_iff, List.count_eq_zero]
  constructor
  · intro h hmem
    simpa using h false hmem
  · intro h x hx
    cases x
    · exact absurd hx h
    · rfl

/-- The slot the scan returns holds `false`. -/
theorem getElem?_firstFree {mask : List Bool} {i : Nat} (h : firstFree mask = some i) :
    mask[i]? = some false := by
  obtain ⟨hi, hfree, _⟩ := firstFree_eq_some_iff.mp h
  rw [Taken, List.getElem?_eq_getElem hi] at hfree
  rw [List.getElem?_eq_getElem hi]
  simpa using hfree

/-- The scan finds something when a slot is free. -/
theorem exists_firstFree {mask : List Bool} {i : Nat} (h : mask[i]? = some false) :
    ∃ j, firstFree mask = some j := by
  rcases hfirst : firstFree mask with _ | j
  · rw [firstFree_eq_none_iff, free, List.count_eq_zero] at hfirst
    exact absurd (List.mem_of_getElem? h) hfirst
  · exact ⟨j, rfl⟩

/-- Where a free bit is found there is one. -/
theorem free_pos_of_firstFree {mask : List Bool} {i : Nat} (h : firstFree mask = some i) :
    0 < free mask := by
  rcases Nat.eq_zero_or_pos (free mask) with h0 | h0
  · rw [firstFree_eq_none_iff.mpr h0] at h
    simp at h
  · exact h0

/-- The scan, as a search among the numbers of the slots. -/
theorem firstFree_eq_find? (mask : List Bool) :
    firstFree mask = (List.range mask.length).find? fun i => decide (¬ Taken mask i) := by
  apply Option.ext
  intro i
  rw [firstFree_eq_some_iff, List.find?_range_eq_some]
  simp only [List.mem_range, decide_not, Bool.not_not, Bool.not_eq_true', decide_eq_true_eq,
    decide_eq_false_iff_not]
  exact and_left_comm

/-- Taking a slot leaves the others as they were. -/
theorem taken_set {mask : List Bool} {i j : Nat} (hi : i < mask.length) :
    Taken (mask.set i true) j ↔ j = i ∨ Taken mask j := by
  unfold Taken
  by_cases hij : i = j
  · subst hij
    simp [hi]
  · rw [List.getElem?_set_ne hij]
    simp [Ne.symm hij]

/-- Giving back a slot that was free before it was taken restores the mask. -/
theorem set_true_set_false {mask : List Bool} {i : Nat} (h : firstFree mask = some i) :
    (mask.set i true).set i false = mask := by
  obtain ⟨hi, hval⟩ := List.getElem?_eq_some_iff.mp (getElem?_firstFree h)
  rw [List.set_set, ← hval, List.set_getElem_self]

/-- Taking the first free slot leaves one free slot less. -/
theorem free_set {mask : List Bool} {i : Nat} (h : firstFree mask = some i) :
    free (mask.set i true) = free mask - 1 := by
  obtain ⟨hi, hval⟩ := List.getElem?_eq_some_iff.mp (getElem?_firstFree h)
  unfold free
  rw [List.count_set hi]
  simp [hval]

/-! ### Masks that only grow -/

/-- Only slots that meet a condition were taken, and none was given back. -/
def TakesOnly (P : Nat → Prop) (mask mask' : List Bool) : Prop :=
  ∀ i : Nat, mask'[i]? = mask[i]? ∨ P i ∧ mask[i]? = some false ∧ mask'[i]? = some true

/-- Nothing is taken by doing nothing. -/
theorem TakesOnly.refl (P : Nat → Prop) (mask : List Bool) : TakesOnly P mask mask :=
  fun _ => Or.inl rfl

/-- What two changes take, one after the other, is in the same set. -/
theorem TakesOnly.trans {P : Nat → Prop} {m m' m'' : List Bool} (h : TakesOnly P m m')
    (h' : TakesOnly P m' m'') : TakesOnly P m m'' := by
  intro i
  rcases h i with heq | ⟨hp, hfree, htaken⟩
  · rcases h' i with heq' | ⟨hp, hfree, htaken⟩
    · exact Or.inl (heq'.trans heq)
    · exact Or.inr ⟨hp, heq ▸ hfree, htaken⟩
  · rcases h' i with heq' | ⟨_, hfree', _⟩
    · exact Or.inr ⟨hp, hfree, heq'.trans htaken⟩
    · rw [htaken] at hfree'
      cases hfree'

/-- First fit takes one slot. -/
theorem takesOnly_set {P : Nat → Prop} {mask : List Bool} {i : Nat} (h : firstFree mask = some i)
    (hp : P i) : TakesOnly P mask (mask.set i true) := by
  intro j
  by_cases hij : i = j
  · subst hij
    exact Or.inr ⟨hp, getElem?_firstFree h,
      List.getElem?_set_self (firstFree_eq_some_iff.mp h).1⟩
  · exact Or.inl (List.getElem?_set_ne hij)

/-! ### Packed masks -/

/-- The taken slots are an initial segment. -/
def Packed (mask : List Bool) : Prop := ∀ i j, i < j → Taken mask j → Taken mask i

/-- First fit on a packed mask hands out a slot above every taken one. -/
theorem Packed.lt_firstFree {mask : List Bool} (hp : Packed mask) {i j : Nat}
    (h : firstFree mask = some i) (hj : Taken mask j) : j < i := by
  obtain ⟨_, hfree, _⟩ := firstFree_eq_some_iff.mp h
  rcases Nat.lt_trichotomy j i with hlt | rfl | hgt
  · exact hlt
  · exact absurd hj hfree
  · exact absurd (hp i j hgt hj) hfree

/-- First fit keeps a mask packed. -/
theorem Packed.set_firstFree {mask : List Bool} {i : Nat} (h : firstFree mask = some i)
    (hp : Packed mask) : Packed (mask.set i true) := by
  obtain ⟨hi, _, hbelow⟩ := firstFree_eq_some_iff.mp h
  intro a b hab hb
  rw [taken_set hi] at hb ⊢
  rcases hb with rfl | hb
  · exact Or.inr (hbelow a hab)
  · exact Or.inr (hp a b hab hb)

/-- Nothing is taken in a new mask. -/
theorem not_taken_replicate_false (n i : Nat) : ¬ Taken (List.replicate n false) i := by
  simp [Taken, List.getElem?_replicate]

/-- A mask with nothing taken is packed. -/
theorem packed_replicate_false (n : Nat) : Packed (List.replicate n false) :=
  fun _ j _ hj => absurd hj (not_taken_replicate_false n j)

end MiniExt.Lib
