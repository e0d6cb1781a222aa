import MiniExt.Lib.Chunks
import Mathlib.Data.Nat.Basic

namespace MiniExt.Lib

/-!
# Lib — flat files and packed numbers

A flat file is a list.  Data is stored at an offset over what was there, and past the end the
file grows.  Numbers are packed into bytes, the lowest byte first.

* `writeAt`, `HoldsAt` — storing data, and finding it at an offset;
* `HoldsAt.writeAt`, `length_writeAt` — what a store leaves;
* `encodeLE`, `decodeLE` — one number in a fixed number of bytes;
* `encodeArray`, `decodeArray`, `encodeBools`, `decodeBools` — arrays.
-/

variable {α : Type}

/-! ### Data at an offset -/

/-- The file after data was stored at an offset; a hole is filled with `z`.  To store nothing
    changes nothing, wherever it is stored. -/
def writeAt (z : α) (file : List α) (offset : Nat) : (data : List α) → List α
  | [] => file
  | x :: data => patch z offset (x :: data) file ++ file.drop (offset + (x :: data).length)

/-- Data that is not empty is patched in, and what lies behind it stays. -/
theorem writeAt_of_ne_nil (z : α) (file : List α) (offset : Nat) {data : List α} (h : data ≠ []) :
    writeAt z file offset data = patch z offset data file ++ file.drop (offset + data.length) := by
  cases data with
  | nil => exact absurd rfl h
  | cons x data => rfl

/-- The data at an offset. -/
def HoldsAt (file : List α) (offset : Nat) (data : List α) : Prop := data <+: file.drop offset

instance [DecidableEq α] (file : List α) (offset : Nat) (data : List α) :
    Decidable (HoldsAt file offset data) :=
  inferInstanceAs (Decidable (_ <+: _))

/-- What a file holds is what is read there. -/
theorem HoldsAt.take_eq {file data : List α} {offset : Nat} (h : HoldsAt file offset data) :
    (file.drop offset).take data.length = data :=
  (List.prefix_iff_eq_take.mp h).symm

/-- What a file holds lies in the file. -/
theorem HoldsAt.length_le {file data : List α} {offset : Nat} (h : HoldsAt file offset data) :
    data.length ≤ (file.drop offset).length :=
  List.IsPrefix.length_le h

/-- Data in two parts. -/
theorem holdsAt_append {file a b : List α} {offset : Nat} :
    HoldsAt file offset (a ++ b) ↔ HoldsAt file offset a ∧ HoldsAt file (offset + a.length) b := by
  unfold HoldsAt
  rw [← List.drop_drop]
  constructor
  · rintro ⟨tail, htail⟩
    rw [← htail]
    refine ⟨⟨b ++ tail, by rw [List.append_assoc]⟩, ?_⟩
    rw [List.append_assoc, List.drop_left]
    exact List.prefix_append b tail
  · rintro ⟨⟨tail, htail⟩, hb⟩
    rw [← htail] at hb ⊢
    rw [List.drop_left] at hb
    exact (List.prefix_append_right_inj a).mpr hb

/-- What was stored is there. -/
theorem holdsAt_writeAt (z : α) (file : List α) (offset : Nat) (data : List α) :
    HoldsAt (writeAt z file offset data) offset data := by
  unfold HoldsAt
  by_cases h : data = []
  · rw [h]
    exact List.nil_prefix
  · rw [writeAt_of_ne_nil z file offset h, List.drop_append_of_le_length (by simp), drop_patch]
    exact List.prefix_append _ _

/-- A padded list has the entries it had, and the padding after them. -/
theorem getElem?_padTo (z : α) {o j : Nat} (v : List α) (hj : j < o) :
    (padTo z o v)[j]? = some (v[j]?.getD z) := by
  have hlen : (v.take o).length = min o v.length := List.length_take
  unfold padTo
  rcases Nat.lt_or_ge j v.length with hv | hv
  · rw [List.getElem?_append_left (by omega), List.getElem?_take_of_lt hj,
      List.getElem?_eq_getElem hv, Option.getD_some]
  · rw [List.getElem?_append_right (by omega), List.getElem?_replicate, if_pos (by omega),
      List.getElem?_eq_none hv, Option.getD_none]

/-- **The file after a store**, element by element. -/
theorem getElem?_writeAt (z : α) (file : List α) (offset : Nat) {data : List α} (h : data ≠ [])
    (j : Nat) : (writeAt z file offset data)[j]? =
      if j < offset then some (file[j]?.getD z)
      else if j < offset + data.length then data[j - offset]?
      else file[j]? := by
  have hlen : (patch z offset data file).length = offset + data.length := length_patch ..
  have hpad : (padTo z offset file).length = offset := length_padTo ..
  rw [writeAt_of_ne_nil z file offset h]
  split
  · rw [List.getElem?_append_left (by omega), patch, List.getElem?_append_left (by omega),
      getElem?_padTo z file (by assumption)]
  split
  · rw [List.getElem?_append_left (by omega), patch, List.getElem?_append_right (by omega), hpad]
  · rw [List.getElem?_append_right (by omega), hlen, List.getElem?_drop]
    congr 1
    omega

/-- What a file holds, byte by byte. -/
theorem holdsAt_iff_getElem? {file data : List α} {offset : Nat} :
    HoldsAt file offset data ↔ ∀ j < data.length, file[offset + j]? = data[j]? := by
  unfold HoldsAt
  rw [List.prefix_iff_getElem?]
  constructor
  · intro h j hj
    rw [← List.getElem?_drop, h j hj, List.getElem?_eq_getElem hj]
  · intro h j hj
    rw [List.getElem?_drop, h j hj, List.getElem?_eq_getElem hj]

/-- **Data survives** what is stored beside it. -/
theorem HoldsAt.writeAt {z : α} {file data data' : List α} {offset offset' : Nat}
    (h : HoldsAt file offset data)
    (hapart : offset' + data'.length ≤ offset ∨ offset + data.length ≤ offset') :
    HoldsAt (writeAt z file offset' data') offset data := by
  by_cases hnil : data' = []
  · rwa [hnil, Lib.writeAt]
  rw [holdsAt_iff_getElem?] at h ⊢
  intro j hj
  have hin := h j hj
  rw [getElem?_writeAt z file offset' hnil]
  rcases hapart with hbefore | hafter
  · rw [if_neg (by omega), if_neg (by omega), hin]
  · rw [if_pos (by omega), hin, List.getElem?_eq_getElem hj, Option.getD_some]

/-- A store leaves the file as it is where the data is already there. -/
theorem writeAt_of_holdsAt {z : α} {file data : List α} {offset : Nat}
    (h : HoldsAt file offset data) : Lib.writeAt z file offset data = file := by
  by_cases hnil : data = []
  · rw [hnil, Lib.writeAt]
  have hpos : 0 < data.length := List.length_pos_iff.mpr hnil
  have hlen := h.length_le
  rw [List.length_drop] at hlen
  rw [holdsAt_iff_getElem?] at h
  apply List.ext_getElem?
  intro j
  rw [getElem?_writeAt z file offset hnil]
  split
  · rw [List.getElem?_eq_getElem (by omega), Option.getD_some]
  split
  · rw [← h (j - offset) (by omega)]
    congr 1
    omega
  · rfl

/-- How long the file is after a store. -/
theorem length_writeAt (z : α) (file : List α) (offset : Nat) {data : List α} (h : data ≠ []) :
    (Lib.writeAt z file offset data).length = max file.length (offset + data.length) := by
  rw [writeAt_of_ne_nil z file offset h, List.length_append, length_patch, List.length_drop]
  omega

/-- Two stores in a row are one. -/
theorem writeAt_append (z : α) (file : List α) (offset : Nat) (a b : List α) :
    writeAt z (writeAt z file offset a) (offset + a.length) b = writeAt z file offset (a ++ b) := by
  by_cases ha : a = []
  · rw [ha, writeAt, List.length_nil, Nat.add_zero, List.nil_append]
  by_cases hb : b = []
  · rw [hb, writeAt, List.append_nil]
  have hab : a ++ b ≠ [] := fun hnil => ha (List.append_eq_nil_iff.mp hnil).1
  apply List.ext_getElem?
  intro j
  rw [getElem?_writeAt z _ _ hb, getElem?_writeAt z _ _ ha, getElem?_writeAt z _ _ hab,
    List.length_append]
  rcases Nat.lt_or_ge j offset with hj | hj
  · rw [if_pos (by omega), if_pos hj, if_pos hj, Option.getD_some]
  rcases Nat.lt_or_ge j (offset + a.length) with ha | ha
  · have hget : a[j - offset]? = some a[j - offset] := List.getElem?_eq_getElem (by omega)
    rw [if_pos ha, if_neg (by omega), if_pos ha, if_neg (by omega), if_pos (by omega),
      List.getElem?_append_left (by omega), hget, Option.getD_some]
  rw [if_neg (show ¬ j < offset + a.length by omega), if_neg (show ¬ j < offset by omega),
    if_neg (show ¬ j < offset + a.length by omega), if_neg (show ¬ j < offset by omega)]
  rcases Nat.lt_or_ge j (offset + a.length + b.length) with hb | hb
  · rw [if_pos hb, if_pos (by omega), List.getElem?_append_right (by omega)]
    congr 1
    omega
  · rw [if_neg (by omega), if_neg (by omega)]

/-! ### Numbers -/

/-- A number in `width` bytes, the lowest byte first; what does not fit is cut off. -/
def encodeLE : (width : Nat) → Nat → List UInt8
  | 0, _ => []
  | width + 1, n => UInt8.ofNat n :: encodeLE width (n / 256)

/-- The number in a list of bytes. -/
def decodeLE : List UInt8 → Nat
  | [] => 0
  | b :: bs => b.toNat + 256 * decodeLE bs

/-- A number has as many bytes as its width. -/
@[simp] theorem length_encodeLE (width n : Nat) : (encodeLE width n).length = width := by
  induction width generalizing n with
  | zero => rfl
  | succ width ih => rw [encodeLE, List.length_cons, ih]

/-- A number that fits is read back. -/
theorem decodeLE_encodeLE {width n : Nat} (h : n < 256 ^ width) :
    decodeLE (encodeLE width n) = n := by
  induction width generalizing n with
  | zero =>
    rw [Nat.pow_zero] at h
    obtain rfl : n = 0 := by omega
    rfl
  | succ width ih =>
    have hdiv : n / 256 < 256 ^ width := by
      rw [Nat.pow_succ] at h
      exact Nat.div_lt_of_lt_mul (by rwa [Nat.mul_comm] at h)
    rw [encodeLE, decodeLE, ih hdiv]
    have hbyte : (UInt8.ofNat n).toNat = n % 256 := UInt8.toNat_ofNat'
    rw [hbyte]
    exact Nat.mod_add_div n 256

/-- An array of numbers. -/
def encodeArray (width : Nat) (ns : List Nat) : List UInt8 := ns.flatMap (encodeLE width)

/-- The `count` numbers in a list of bytes. -/
def decodeArray (width : Nat) : (count : Nat) → List UInt8 → List Nat
  | 0, _ => []
  | count + 1, bytes =>
    decodeLE (bytes.take width) :: decodeArray width count (bytes.drop width)

/-- An array of numbers has the width of a number for each. -/
@[simp] theorem length_encodeArray (width : Nat) (ns : List Nat) :
    (encodeArray width ns).length = width * ns.length := by
  induction ns with
  | nil => rfl
  | cons n ns ih =>
    rw [encodeArray, List.flatMap_cons, List.length_append, length_encodeLE, List.length_cons,
      Nat.mul_add, Nat.mul_one, Nat.add_comm]
    exact congrArg (· + width) ih

/-- Numbers that fit are read back. -/
theorem decodeArray_encodeArray {width : Nat} {ns : List Nat} (h : ∀ n ∈ ns, n < 256 ^ width) :
    decodeArray width ns.length (encodeArray width ns) = ns := by
  induction ns with
  | nil => rfl
  | cons n ns ih =>
    have hlen := length_encodeLE width n
    have hsplit : encodeArray width (n :: ns) = encodeLE width n ++ encodeArray width ns := rfl
    rw [List.length_cons, decodeArray, hsplit, List.take_left' hlen, List.drop_left' hlen,
      decodeLE_encodeLE (h n (List.mem_cons_self ..)),
      ih fun m hm => h m (List.mem_cons_of_mem n hm)]

/-- Booleans, one in a byte. -/
def encodeBools (bs : List Bool) : List UInt8 := bs.map fun b => if b then 1 else 0

/-- A byte that is not zero is read as true. -/
def decodeBools (bytes : List UInt8) : List Bool := bytes.map (· ≠ 0)

/-- A mask has a byte for each bit. -/
@[simp] theorem length_encodeBools (bs : List Bool) : (encodeBools bs).length = bs.length :=
  List.length_map _

/-- **A mask** is read back from its bytes. -/
theorem decodeBools_encodeBools (bs : List Bool) : decodeBools (encodeBools bs) = bs := by
  induction bs with
  | nil => rfl
  | cons b bs ih =>
    have hcons : decodeBools (encodeBools (b :: bs)) =
        decide ((if b then 1 else 0 : UInt8) ≠ 0) :: decodeBools (encodeBools bs) := rfl
    rw [hcons, ih]
    cases b
    · rfl
    · rfl

end MiniExt.Lib
