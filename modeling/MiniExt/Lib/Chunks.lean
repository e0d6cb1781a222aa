import Mathlib.Data.List.Basic
import Mathlib.Tactic.Ring

namespace MiniExt.Lib

/-!
# Lib — files kept as a list of chunks

A file is a list of chunks of at most `cap` elements.  A position addresses chunk
`pos / cap` at offset `pos % cap`.  Writing a piece into a chunk cuts the chunk off after
the piece, and fills it up with `z` when the piece starts past its end.

* `writeChunks` — write data chunk by chunk, appending at most `room` chunks;
* `readChunks` — read chunk by chunk until a chunk has nothing at the position;
* `writeChunks_rest` — how much of the data finds room;
* `readChunks_writeChunks` — reading back what was written at a position in the file;
* `content_writeChunks` — what a write does to the content of a file without short chunks
  in its middle: everything past the data survives only if the data ends on a chunk
  boundary.
-/

variable {α : Type}

/-! ### One chunk -/

/-- The first `o` elements of a chunk, filled up with `z`. -/
def padTo (z : α) (o : Nat) (v : List α) : List α :=
  v.take o ++ List.replicate (o - v.length) z

/-- A piece written into a chunk at offset `o`. -/
def patch (z : α) (o : Nat) (piece v : List α) : List α := padTo z o v ++ piece

/-- A padded list has the length it is padded to. -/
@[simp] theorem length_padTo (z : α) (o : Nat) (v : List α) : (padTo z o v).length = o := by
  simp only [padTo, List.length_append, List.length_take, List.length_replicate]
  omega

/-- A patched chunk ends with the piece. -/
@[simp] theorem length_patch (z : α) (o : Nat) (piece v : List α) :
    (patch z o piece v).length = o + piece.length := by
  simp [patch]

/-- Padding a list that is long enough cuts it. -/
theorem padTo_eq_take {z : α} {o : Nat} {v : List α} (h : o ≤ v.length) :
    padTo z o v = v.take o := by
  simp [padTo, Nat.sub_eq_zero_of_le h]

/-- Behind the offset a patched chunk has the piece. -/
theorem drop_patch (z : α) (o : Nat) (piece v : List α) : (patch z o piece v).drop o = piece := by
  rw [patch, List.drop_append_of_le_length (by simp)]
  simp [List.drop_of_length_le]

/-- A list with the part from `pos` on replaced by `data`, as far as `data` goes. -/
def overlay (c : List α) (pos : Nat) (data : List α) : List α :=
  c.take pos ++ data ++ c.drop (pos + data.length)

/-- What stays behind the data decides whether the rest is an overlay. -/
theorem overlay_eq_iff {c tail : List α} {pos : Nat} {data : List α} :
    c.take pos ++ data ++ tail = overlay c pos data ↔ tail = c.drop (pos + data.length) :=
  List.append_right_inj _

/-- An overlay reaches to the end of the data. -/
theorem length_overlay {c : List α} {pos : Nat} (data : List α) (h : pos ≤ c.length) :
    pos + data.length ≤ (overlay c pos data).length := by
  simp only [overlay, List.length_append, List.length_take]
  omega

/-! ### Writing -/

/-- Write `data` from `pos` on, one chunk per turn, appending at most `room` chunks.  The
    second component is what found no room.  A chunk past the end is appended at the end,
    whatever its index. -/
def writeChunks (z : α) (cap : Nat) :
    (fuel : Nat) → List (List α) → (room pos : Nat) → List α → List (List α) × List α
  | 0, B, _, _, data => (B, data)
  | fuel + 1, B, room, pos, data =>
    if data = [] then (B, [])
    else
      let k := pos / cap
      let o := pos % cap
      let piece := data.take (cap - o)
      if k < B.length then
        writeChunks z cap fuel (B.modify k (patch z o piece)) room (pos + piece.length)
          (data.drop (cap - o))
      else
        match room with
        | 0 => (B, data)
        | room + 1 =>
          writeChunks z cap fuel (B ++ [patch z o piece []]) room (pos + piece.length)
            (data.drop (cap - o))

/-- Read at most `need` elements from `pos` on, one chunk per turn. -/
def readChunks (cap : Nat) : (fuel : Nat) → List (List α) → (pos need : Nat) → List α
  | 0, _, _, _ => []
  | fuel + 1, B, pos, need =>
    match B[pos / cap]? with
    | none => []
    | some v =>
      let got := (v.drop (pos % cap)).take need
      if got = [] then [] else got ++ readChunks cap fuel B (pos + got.length) (need - got.length)

/-! ### Arithmetic of positions -/

section Positions

variable {cap pos n : Nat}

/-- A position is its block and its offset. -/
theorem div_mod_eq (cap pos : Nat) : cap * (pos / cap) + pos % cap = pos := Nat.div_add_mod pos cap

/-- A piece that fills its chunk ends on the next chunk boundary. -/
theorem next_boundary (pos : Nat) (hcap : 0 < cap) :
    (pos + (cap - pos % cap)) / cap = pos / cap + 1 ∧ (pos + (cap - pos % cap)) % cap = 0 := by
  have hlt := Nat.mod_lt pos hcap
  have hpos := div_mod_eq cap pos
  have heq : pos + (cap - pos % cap) = cap * (pos / cap + 1) := by
    rw [Nat.mul_add, Nat.mul_one]; omega
  rw [heq]
  exact ⟨Nat.mul_div_cancel_left _ hcap, Nat.mul_mod_right _ _⟩

/-- A piece that stays inside its chunk keeps the chunk index. -/
theorem div_add_of_lt (hcap : 0 < cap) (h : pos % cap + n < cap) :
    (pos + n) / cap = pos / cap ∧ (pos + n) % cap = pos % cap + n := by
  have hpos := div_mod_eq cap pos
  have heq : pos + n = (pos % cap + n) + cap * (pos / cap) := by omega
  rw [heq, Nat.add_mul_div_left _ _ hcap, Nat.add_mul_mod_self_left,
    Nat.div_eq_of_lt h, Nat.mod_eq_of_lt h]
  exact ⟨by omega, rfl⟩

/-- What ends inside a chunk, or at its end, ends on a boundary only at its end. -/
theorem dvd_add_iff_of_le (hn : 0 < n) (hle : pos % cap + n ≤ cap) :
    cap ∣ pos + n ↔ pos % cap + n = cap := by
  have hsum : pos + n = cap * (pos / cap) + (pos % cap + n) := by
    rw [← Nat.add_assoc, Nat.div_add_mod]
  rw [hsum, ← Nat.dvd_add_iff_right (Nat.dvd_mul_right _ _)]
  constructor
  · intro hdvd
    exact Nat.le_antisymm hle (Nat.le_of_dvd (by omega) hdvd)
  · intro heq
    rw [heq]

end Positions

/-! ### What a write leaves -/

section Writing

variable {z : α} {cap : Nat}

/-- Nothing to write leaves the chunks as they are. -/
@[simp] theorem writeChunks_nil (fuel : Nat) (B : List (List α)) (room pos : Nat) :
    writeChunks z cap fuel B room pos [] = (B, []) := by
  cases fuel <;> simp [writeChunks]

/-- One turn inside the file. -/
theorem writeChunks_patch {fuel : Nat} {B : List (List α)} {room pos : Nat} {data : List α}
    (hd : data ≠ []) (hk : pos / cap < B.length) :
    writeChunks z cap (fuel + 1) B room pos data =
      writeChunks z cap fuel
        (B.modify (pos / cap) (patch z (pos % cap) (data.take (cap - pos % cap)))) room
        (pos + (data.take (cap - pos % cap)).length) (data.drop (cap - pos % cap)) := by
  simp only [writeChunks, if_neg hd, if_pos hk]

/-- One turn past the end of the file. -/
theorem writeChunks_append {fuel : Nat} {B : List (List α)} {room pos : Nat} {data : List α}
    (hd : data ≠ []) (hk : B.length ≤ pos / cap) :
    writeChunks z cap (fuel + 1) B (room + 1) pos data =
      writeChunks z cap fuel (B ++ [patch z (pos % cap) (data.take (cap - pos % cap)) []]) room
        (pos + (data.take (cap - pos % cap)).length) (data.drop (cap - pos % cap)) := by
  simp only [writeChunks, if_neg hd, if_neg (Nat.not_lt.mpr hk)]

/-- No turn past the end of the file without room. -/
theorem writeChunks_full {fuel : Nat} {B : List (List α)} {pos : Nat} {data : List α}
    (hk : B.length ≤ pos / cap) :
    writeChunks z cap fuel B 0 pos data = (B, data) := by
  cases fuel with
  | zero => rfl
  | succ fuel =>
    by_cases hd : data = []
    · simp [writeChunks, hd]
    · simp only [writeChunks, if_neg hd, if_neg (Nat.not_lt.mpr hk)]

/-- The position after a turn that leaves data over is the next chunk boundary. -/
theorem pos_after_turn (hcap : 0 < cap) {pos : Nat} {data : List α}
    (hrest : data.drop (cap - pos % cap) ≠ []) :
    (pos + (data.take (cap - pos % cap)).length) / cap = pos / cap + 1 ∧
      (pos + (data.take (cap - pos % cap)).length) % cap = 0 := by
  have hlong : cap - pos % cap < data.length := by
    by_contra hle
    exact hrest (List.drop_of_length_le (by omega))
  rw [List.length_take, Nat.min_eq_left hlong.le]
  exact next_boundary _ hcap

/-- The data left over after a turn is shorter. -/
theorem length_drop_turn (hcap : 0 < cap) (pos : Nat) {fuel : Nat} {data : List α}
    (hf : data.length ≤ fuel + 1) : (data.drop (cap - pos % cap)).length ≤ fuel := by
  have := Nat.mod_lt pos hcap
  rw [List.length_drop]
  omega

/-- **Room, without a gap.**  A write that starts inside the file or right at its end
    writes up to the last chunk there is room for. -/
theorem writeChunks_rest (hcap : 0 < cap) (fuel : Nat) (B : List (List α)) (room pos : Nat)
    (data : List α) (hf : data.length ≤ fuel) (hgap : pos / cap ≤ B.length) :
    (writeChunks z cap fuel B room pos data).2 = data.drop (cap * (B.length + room) - pos) := by
  induction fuel generalizing B room pos data with
  | zero =>
    obtain rfl : data = [] := List.eq_nil_of_length_eq_zero (by omega)
    simp
  | succ fuel ih =>
    by_cases hd : data = []
    · simp [hd]
    have hmod := Nat.mod_lt pos hcap
    have hpos := div_mod_eq cap pos
    have hf' := length_drop_turn hcap pos hf
    -- what a turn leaves over is cut at the same place
    have hturn : ∀ n, cap * (pos / cap + 1) ≤ n →
        (data.drop (cap - pos % cap)).drop
            (n - (pos + (data.take (cap - pos % cap)).length)) = data.drop (n - pos) := by
      intro n hn
      rw [Nat.mul_add, Nat.mul_one] at hn
      rw [List.drop_drop, List.length_take]
      by_cases hlong : cap - pos % cap ≤ data.length
      · rw [Nat.min_eq_left hlong]
        congr 1
        omega
      · rw [List.drop_of_length_le (by omega), List.drop_of_length_le (by omega)]
    have hnext : (pos + (data.take (cap - pos % cap)).length) / cap ≤ pos / cap + 1 := by
      by_cases hrest : data.drop (cap - pos % cap) = []
      · refine le_trans (Nat.div_le_div_right ?_) (next_boundary _ hcap).1.le
        rw [List.length_take]
        omega
      · exact (pos_after_turn hcap hrest).1.le
    rcases Nat.lt_or_eq_of_le hgap with hk | hk
    · rw [writeChunks_patch hd hk, ih _ _ _ _ hf' (by simpa using hnext.trans hk),
        List.length_modify]
      apply hturn
      exact Nat.mul_le_mul_left _ (by omega)
    · cases room with
      | zero =>
        have hend : cap * B.length - pos = 0 := by rw [← hk]; omega
        rw [writeChunks_full (by omega)]
        simp [hend]
      | succ room =>
        rw [writeChunks_append hd (by omega),
          ih _ _ _ _ hf' (by simpa [hk] using hnext), List.length_append, List.length_singleton,
          Nat.add_assoc, Nat.add_comm 1 room]
        apply hturn
        exact Nat.mul_le_mul_left _ (by omega)

/-- **Room, past a gap.**  A write that starts past the end appends every piece. -/
theorem writeChunks_rest_gap (hcap : 0 < cap) (fuel : Nat) (B : List (List α))
    (room pos : Nat) (data : List α) (hf : data.length ≤ fuel) (hgap : B.length < pos / cap) :
    (writeChunks z cap fuel B room pos data).2 = data.drop (cap * room - pos % cap) := by
  induction fuel generalizing B room pos data with
  | zero =>
    obtain rfl : data = [] := List.eq_nil_of_length_eq_zero (by omega)
    simp
  | succ fuel ih =>
    by_cases hd : data = []
    · simp [hd]
    have hmod := Nat.mod_lt pos hcap
    cases room with
    | zero =>
      rw [writeChunks_full hgap.le]
      simp
    | succ room =>
      rw [writeChunks_append hd hgap.le, Nat.mul_add, Nat.mul_one]
      by_cases hrest : data.drop (cap - pos % cap) = []
      · have hlen := List.drop_eq_nil_iff.mp hrest
        rw [hrest, writeChunks_nil, List.drop_of_length_le (by omega)]
      · obtain ⟨hdiv, hzero⟩ := pos_after_turn hcap hrest
        rw [ih _ _ _ _ (length_drop_turn hcap pos hf) (by rw [hdiv]; simpa using hgap), hzero,
          List.drop_drop]
        congr 1
        omega

/-- A new chunk, patched at its beginning, is the piece. -/
theorem patch_zero_nil (z : α) (piece : List α) : patch z 0 piece [] = piece := by
  simp [patch, padTo]

/-- **Past a gap**, every turn appends a chunk: the first one at the offset of the position,
    the others from their start. -/
theorem writeChunks_gap (hcap : 0 < cap) (fuel : Nat) (B : List (List α)) (room pos : Nat)
    (data : List α) (hd : data ≠ []) (hf : data.length ≤ fuel) (hgap : B.length < pos / cap)
    (hroom : pos % cap + data.length ≤ cap * room) :
    ∃ tail, (writeChunks z cap fuel B room pos data).1 =
        B ++ patch z (pos % cap) (data.take (cap - pos % cap)) [] :: tail ∧
      tail.flatten = data.drop (cap - pos % cap) ∧
      (data.length ≤ cap - pos % cap → tail = []) := by
  -- by induction on the turns: after the first one the gap is still open, and the offset is zero
  induction fuel generalizing B room pos data with
  | zero => exact absurd (List.eq_nil_of_length_eq_zero (by omega)) hd
  | succ fuel ih =>
    have hmod := Nat.mod_lt pos hcap
    have hne : 0 < data.length := List.length_pos_iff.mpr hd
    cases room with
    | zero => omega
    | succ room =>
      rw [Nat.mul_add, Nat.mul_one] at hroom
      rw [writeChunks_append hd hgap.le]
      by_cases hrest : data.drop (cap - pos % cap) = []
      · refine ⟨[], ?_, ?_, fun _ => rfl⟩
        · rw [hrest, writeChunks_nil]
        · rw [hrest]
          rfl
      · have hlong : cap - pos % cap < data.length := by
          by_contra hle
          exact hrest (List.drop_of_length_le (by omega))
        obtain ⟨hdiv, hzero⟩ := pos_after_turn hcap hrest
        obtain ⟨tail, hwrite, hflat, _⟩ := ih
          (B ++ [patch z (pos % cap) (data.take (cap - pos % cap)) []]) room
          (pos + (data.take (cap - pos % cap)).length) (data.drop (cap - pos % cap)) hrest
          (length_drop_turn hcap pos hf) (by rw [hdiv]; simpa using hgap)
          (by rw [hzero, List.length_drop]; omega)
        rw [hzero, Nat.sub_zero] at hwrite hflat
        rw [patch_zero_nil] at hwrite
        refine ⟨(data.drop (cap - pos % cap)).take cap :: tail, ?_, ?_, fun hle => by omega⟩
        · rw [hwrite, List.append_assoc, List.singleton_append]
        · rw [List.flatten_cons, hflat, List.take_append_drop]

/-- A write never removes a chunk, and appends at most `room`. -/
theorem length_writeChunks_le (fuel : Nat) (B : List (List α)) (room pos : Nat) (data : List α) :
    B.length ≤ (writeChunks z cap fuel B room pos data).1.length ∧
      (writeChunks z cap fuel B room pos data).1.length ≤ B.length + room := by
  induction fuel generalizing B room pos data with
  | zero => simp [writeChunks]
  | succ fuel ih =>
    by_cases hd : data = []
    · simp [hd]
    by_cases hk : pos / cap < B.length
    · rw [writeChunks_patch hd hk]
      simpa using ih (B.modify (pos / cap) (patch z (pos % cap) (data.take (cap - pos % cap))))
        room (pos + (data.take (cap - pos % cap)).length) (data.drop (cap - pos % cap))
    · cases room with
      | zero => simp [writeChunks_full (Nat.not_lt.mp hk)]
      | succ room =>
        rw [writeChunks_append hd (Nat.not_lt.mp hk)]
        have := ih (B ++ [patch z (pos % cap) (data.take (cap - pos % cap)) []])
          room (pos + (data.take (cap - pos % cap)).length) (data.drop (cap - pos % cap))
        simp only [List.length_append, List.length_singleton] at this
        omega

/-- Chunks before the position of a write keep their elements. -/
theorem getElem?_writeChunks_of_lt (fuel : Nat) (B : List (List α))
    (room pos : Nat) (data : List α) {j : Nat} (hj : j < pos / cap) (hB : j < B.length) :
    (writeChunks z cap fuel B room pos data).1[j]? = B[j]? := by
  induction fuel generalizing B room pos data with
  | zero => rfl
  | succ fuel ih =>
    by_cases hd : data = []
    · simp [hd]
    have hnext : j < (pos + (data.take (cap - pos % cap)).length) / cap :=
      lt_of_lt_of_le hj (Nat.div_le_div_right (Nat.le_add_right _ _))
    by_cases hk : pos / cap < B.length
    · rw [writeChunks_patch hd hk, ih _ _ _ _ hnext (by simpa using hB),
        List.getElem?_modify_ne _ _ (show pos / cap ≠ j by omega)]
    · cases room with
      | zero => rw [writeChunks_full (Nat.not_lt.mp hk)]
      | succ room =>
        rw [writeChunks_append hd (Nat.not_lt.mp hk), ih _ _ _ _ hnext (by simp; omega),
          List.getElem?_append_left hB]

/-- Nothing to read yields nothing. -/
@[simp] theorem readChunks_zero (fuel : Nat) (B : List (List α)) (pos : Nat) :
    readChunks cap fuel B pos 0 = [] := by
  cases fuel with
  | zero => rfl
  | succ fuel => cases h : B[pos / cap]? <;> simp [readChunks, h]

/-- **Reading back.**  What a write without a gap stored completely, a read from the same
    position returns, whatever the file was. -/
theorem readChunks_writeChunks (hcap : 0 < cap) (fuel fuel' : Nat) (B : List (List α))
    (room pos : Nat) (data : List α) (hf : data.length ≤ fuel) (hf' : data.length ≤ fuel')
    (hgap : pos / cap ≤ B.length) (hroom : pos + data.length ≤ cap * (B.length + room)) :
    readChunks cap fuel' (writeChunks z cap fuel B room pos data).1 pos data.length = data := by
  induction fuel generalizing B room pos data fuel' with
  | zero =>
    obtain rfl : data = [] := List.eq_nil_of_length_eq_zero (by omega)
    exact readChunks_zero _ _ _
  | succ fuel ih =>
    by_cases hd : data = []
    · subst hd
      exact readChunks_zero _ _ _
    have hne : 0 < data.length := List.length_pos_iff.mpr hd
    obtain ⟨fuel', rfl⟩ : ∃ n, fuel' = n + 1 := ⟨fuel' - 1, by omega⟩
    have hmod := Nat.mod_lt pos hcap
    have hpos := div_mod_eq cap pos
    generalize hpiece : data.take (cap - pos % cap) = piece
    generalize hrest : data.drop (cap - pos % cap) = rest
    have hsplit : piece ++ rest = data := by rw [← hpiece, ← hrest, List.take_append_drop]
    have hlen : piece.length + rest.length = data.length := by
      rw [← hsplit, List.length_append]
    have hne' : piece ≠ [] := by
      rw [← hpiece]
      intro h
      have := congrArg List.length h
      rw [List.length_take, List.length_nil] at this
      omega
    -- after the first turn, chunk `pos / cap` holds the piece from the offset on, and the
    -- later turns leave it alone
    have key : ∀ (B₁ : List (List α)) (room₁ : Nat) (v : List α),
        pos / cap < B₁.length → B₁[pos / cap]? = some (patch z (pos % cap) piece v) →
        pos + data.length ≤ cap * (B₁.length + room₁) →
        readChunks cap (fuel' + 1)
          (writeChunks z cap fuel B₁ room₁ (pos + piece.length) rest).1 pos data.length = data := by
      intro B₁ room₁ v hk hv hroom₁
      have hhead : (writeChunks z cap fuel B₁ room₁ (pos + piece.length) rest).1[pos / cap]?
          = some (patch z (pos % cap) piece v) := by
        by_cases hnil : rest = []
        · rw [hnil, writeChunks_nil, hv]
        · have hdiv := (pos_after_turn hcap (hrest ▸ hnil)).1
          rw [hpiece] at hdiv
          rw [getElem?_writeChunks_of_lt _ _ _ _ _ (by omega) hk, hv]
      have hgot : ((patch z (pos % cap) piece v).drop (pos % cap)).take data.length = piece := by
        rw [drop_patch, List.take_of_length_le (by omega)]
      simp only [readChunks, hhead, hgot, if_neg hne']
      rw [show data.length - piece.length = rest.length by omega]
      by_cases hnil : rest = []
      · subst hnil
        rw [writeChunks_nil, List.length_nil, readChunks_zero, hsplit]
      · have hdiv := (pos_after_turn hcap (hrest ▸ hnil)).1
        rw [hpiece] at hdiv
        have hpl : 0 < piece.length := List.length_pos_iff.mpr hne'
        rw [ih fuel' B₁ room₁ _ rest (by omega) (by omega) (by omega) (by omega), hsplit]
    rcases Nat.lt_or_eq_of_le hgap with hk | hk
    · rw [writeChunks_patch hd hk, hpiece, hrest]
      refine key _ _ (B[pos / cap]) (by simpa using hk) ?_ (by simpa using hroom)
      rw [List.getElem?_modify_eq, List.getElem?_eq_getElem hk]
      rfl
    · cases room with
      | zero =>
        exfalso
        rw [← hk, Nat.add_zero] at hroom
        omega
      | succ room =>
        rw [writeChunks_append hd hk.ge, hpiece, hrest]
        refine key _ _ [] (by simp [hk]) ?_ ?_
        · rw [hk, List.getElem?_append_right (Nat.le_refl _)]
          simp
        · rw [List.length_append, List.length_singleton, Nat.add_assoc, Nat.add_comm 1 room]
          exact hroom

end Writing

/-! ### The content of a file -/

/-- The elements a read from the start reaches: a chunk that is not full is the last one
    it sees. -/
def content (cap : Nat) : List (List α) → List α
  | [] => []
  | v :: B => if v.length = cap then v ++ content cap B else v

/-- No chunk holds more than `cap` elements. -/
def Bounded (cap : Nat) (B : List (List α)) : Prop := ∀ v ∈ B, v.length ≤ cap

/-- No chunk holds more than `cap` elements, and every chunk but the last is full. -/
def GapFree (cap : Nat) : List (List α) → Prop
  | [] => True
  | v :: B => v.length ≤ cap ∧ (B ≠ [] → v.length = cap) ∧ GapFree cap B

instance decidableGapFree (cap : Nat) : (B : List (List α)) → Decidable (GapFree cap B)
  | [] => isTrue trivial
  | v :: B =>
    have := decidableGapFree cap B
    inferInstanceAs (Decidable (v.length ≤ cap ∧ (B ≠ [] → v.length = cap) ∧ GapFree cap B))

section Content

variable {cap : Nat}

/-- Chunks without gaps are bounded by the capacity. -/
theorem GapFree.bounded {B : List (List α)} (h : GapFree cap B) : Bounded cap B := by
  induction B with
  | nil => simp [Bounded]
  | cons v B ih =>
    intro w hw
    rcases List.mem_cons.mp hw with rfl | hw
    · exact h.1
    · exact ih h.2.2 w hw

/-- So are the chunks after the first. -/
theorem Bounded.tail {v : List α} {B : List (List α)} (h : Bounded cap (v :: B)) :
    Bounded cap B :=
  fun w hw => h w (List.mem_cons_of_mem v hw)

/-- The content of bounded chunks fits their number. -/
theorem length_content_le {B : List (List α)} (h : Bounded cap B) :
    (content cap B).length ≤ cap * B.length := by
  induction B with
  | nil => simp [content]
  | cons v B ih =>
    have hv := h v (by simp)
    have htail := ih h.tail
    rw [content, List.length_cons, Nat.mul_add, Nat.mul_one]
    split
    · rw [List.length_append]; omega
    · omega

/-- A full file without gaps has full chunks only. -/
theorem content_append_chunk {B : List (List α)} (h : GapFree cap B)
    (hfull : (content cap B).length = cap * B.length) (v : List α) :
    content cap (B ++ [v]) = content cap B ++ v := by
  induction B with
  | nil => simp [content]
  | cons w B ih =>
    have htail := length_content_le h.2.2.bounded
    rw [content, List.length_cons, Nat.mul_add, Nat.mul_one] at hfull
    have hw : w.length = cap := by
      by_contra hne
      rw [if_neg hne] at hfull
      have := h.1
      omega
    rw [if_pos hw, List.length_append] at hfull
    rw [List.cons_append, content, if_pos hw, content, if_pos hw, ih h.2.2 (by omega),
      List.append_assoc]

/-- A chunk appended to full chunks leaves no gap. -/
theorem GapFree.append_chunk {B : List (List α)} (h : GapFree cap B)
    (hfull : (content cap B).length = cap * B.length) {v : List α} (hv : v.length ≤ cap) :
    GapFree cap (B ++ [v]) := by
  induction B with
  | nil => exact ⟨hv, by simp, trivial⟩
  | cons w B ih =>
    have htail := length_content_le h.2.2.bounded
    rw [content, List.length_cons, Nat.mul_add, Nat.mul_one] at hfull
    have hw : w.length = cap := by
      by_contra hne
      rw [if_neg hne] at hfull
      have := h.1
      omega
    rw [if_pos hw, List.length_append] at hfull
    exact ⟨h.1, fun _ => hw, ih h.2.2 (by omega)⟩

/-- **One piece.**  A piece written into a file without gaps overlays its content, except
    that what lies past the piece survives only if the piece ends on a chunk boundary. -/
theorem content_modify {z : α} {k o : Nat} (piece : List α) {B : List (List α)}
    (h : GapFree cap B) (hk : k < B.length) (ho : o < cap)
    (hpos : cap * k + o ≤ (content cap B).length) :
    content cap (B.modify k (patch z o piece)) =
      (content cap B).take (cap * k + o) ++ piece ++
        (if o + piece.length = cap then (content cap B).drop (cap * k + o + piece.length)
          else []) := by
  -- by induction on the chunk that is patched: those before it are full
  induction k generalizing B with
  | zero =>
    obtain _ | ⟨v, B⟩ := B
    · simp at hk
    rw [Nat.mul_zero, Nat.zero_add] at hpos ⊢
    have hov : o ≤ v.length := by
      rw [content] at hpos
      split at hpos <;> omega
    rw [List.modify_zero_cons, content, length_patch, content]
    -- a piece that fills the chunk leaves what follows it
    by_cases hend : o + piece.length = cap
    · rw [if_pos hend, if_pos hend, patch, padTo_eq_take hov, hend]
      by_cases hv : v.length = cap
      · rw [if_pos hv, List.take_append_of_le_length hov, List.drop_append, hv,
          List.drop_of_length_le hv.le, Nat.sub_self, List.drop_zero, List.nil_append]
      · have hB : B = [] := by
          by_contra hne
          exact hv (h.2.1 hne)
        rw [if_neg hv, hB, List.drop_of_length_le h.1, content]
    · rw [if_neg hend, if_neg hend, patch, padTo_eq_take hov, List.append_nil]
      split
      · rw [List.take_append_of_le_length hov]
      · rfl
  | succ k ih =>
    obtain _ | ⟨v, B⟩ := B
    · simp at hk
    have hk' : k < B.length := by simpa using hk
    have hv : v.length = cap := h.2.1 (List.ne_nil_of_length_pos (by omega))
    have hstep : cap * (k + 1) + o = cap + (cap * k + o) := by ring
    rw [content, if_pos hv, List.length_append, hv, hstep] at hpos
    have htail := ih h.2.2 hk' (by omega)
    rw [List.modify_succ_cons, content, if_pos hv, content, if_pos hv, htail, hstep, ← hv,
      Nat.add_assoc v.length, List.take_length_add_append, List.drop_length_add_append]
    simp only [List.append_assoc]

/-- A piece that fills its chunk, or goes into the last chunk, makes no gap. -/
theorem GapFree.modify {z : α} {k o : Nat} {piece : List α} {B : List (List α)}
    (h : GapFree cap B) (hk : k < B.length) (hle : o + piece.length ≤ cap)
    (hend : o + piece.length = cap ∨ k + 1 = B.length) :
    GapFree cap (B.modify k (patch z o piece)) := by
  induction k generalizing B with
  | zero =>
    obtain _ | ⟨v, B⟩ := B
    · simp at hk
    refine ⟨by simpa using hle, fun hB => ?_, h.2.2⟩
    rcases hend with hend | hend
    · simpa using hend
    · exact absurd (List.eq_nil_of_length_eq_zero (by simpa using hend.symm)) hB
  | succ k ih =>
    obtain _ | ⟨v, B⟩ := B
    · simp at hk
    have hk' : k < B.length := by simpa using hk
    refine ⟨h.1, fun _ => h.2.1 (List.ne_nil_of_length_pos (by omega)), ?_⟩
    exact ih h.2.2 hk' (hend.imp_right (by simp))

/-- A position inside the content addresses a chunk of the file or the place after its
    last one. -/
theorem div_le_length {B : List (List α)} (hb : Bounded cap B) {pos : Nat}
    (hpos : pos ≤ (content cap B).length) : pos / cap ≤ B.length := by
  apply Nat.div_le_of_le_mul
  exact hpos.trans (length_content_le hb)

/-- A list with a piece put over it, up to the end of the piece and from there on. -/
theorem overlay_ends {c c₁ piece : List α} {pos : Nat} (hpos : pos ≤ c.length)
    (hc : c₁ = c.take pos ++ piece ++ c.drop (pos + piece.length)) :
    pos + piece.length ≤ c₁.length ∧ c₁.take (pos + piece.length) = c.take pos ++ piece ∧
      ∀ n, c₁.drop (pos + piece.length + n) = c.drop (pos + piece.length + n) := by
  have hhead : (c.take pos ++ piece).length = pos + piece.length := by
    rw [List.length_append, List.length_take, Nat.min_eq_left hpos]
  subst hc
  refine ⟨?_, ?_, fun n => ?_⟩
  · rw [List.length_append, hhead]
    exact Nat.le_add_right _ _
  · rw [← hhead, List.take_append_length]
  · rw [← hhead, List.drop_length_add_append, List.drop_drop]

/-- **Write.**  What a completed write does to the content of a file without gaps. -/
theorem content_writeChunks {z : α} (hcap : 0 < cap) (fuel : Nat) (B : List (List α))
    (room pos : Nat) (data : List α) (hd : data ≠ []) (hf : data.length ≤ fuel)
    (h : GapFree cap B) (hpos : pos ≤ (content cap B).length)
    (hroom : pos + data.length ≤ cap * (B.length + room)) :
    content cap (writeChunks z cap fuel B room pos data).1 =
      (content cap B).take pos ++ data ++
        (if cap ∣ pos + data.length then (content cap B).drop (pos + data.length) else []) := by
  induction fuel generalizing B room pos data with
  | zero => exact absurd (List.eq_nil_of_length_eq_zero (by omega)) hd
  | succ fuel ih =>
    have hmod := Nat.mod_lt pos hcap
    have hdm := div_mod_eq cap pos
    have hgap := div_le_length h.bounded hpos
    have hne : 0 < data.length := List.length_pos_iff.mpr hd
    generalize hpiece : data.take (cap - pos % cap) = piece
    generalize hrest : data.drop (cap - pos % cap) = rest
    have hsplit : piece ++ rest = data := by rw [← hpiece, ← hrest, List.take_append_drop]
    have hlen : piece.length + rest.length = data.length := by rw [← hsplit, List.length_append]
    have hple : pos % cap + piece.length ≤ cap := by
      rw [← hpiece, List.length_take]; omega
    have hpl : 0 < piece.length := by
      rw [← hpiece, List.length_take]
      omega
    have hdvd := dvd_add_iff_of_le hpl hple
    -- the first turn, as an overlay of one piece
    have key : ∀ (B₁ : List (List α)) (room₁ : Nat),
        (pos % cap + piece.length = cap → GapFree cap B₁) →
        content cap B₁ = (content cap B).take pos ++ piece ++
          (if pos % cap + piece.length = cap then (content cap B).drop (pos + piece.length)
            else []) →
        pos + data.length ≤ cap * (B₁.length + room₁) →
        content cap (writeChunks z cap fuel B₁ room₁ (pos + piece.length) rest).1 =
          (content cap B).take pos ++ data ++
            (if cap ∣ pos + data.length then (content cap B).drop (pos + data.length)
              else []) := by
      intro B₁ room₁ hgf hcont hroom₁
      by_cases hnil : rest = []
      · subst hnil
        have hpd : piece = data := by simpa using hsplit
        rw [writeChunks_nil, hcont, hpd]
        rw [hpd] at hdvd
        simp only [hdvd]
      · have hfull : pos % cap + piece.length = cap := by
          by_contra hlt
          apply hnil
          rw [← hrest]
          apply List.drop_of_length_le
          rw [← hpiece, List.length_take] at hlt hple
          omega
        rw [if_pos hfull] at hcont
        obtain ⟨hlc, htk, hdr⟩ := overlay_ends hpos hcont
        rw [ih _ _ _ _ hnil (by omega) (hgf hfull) hlc (by omega), htk, hdr,
          show pos + piece.length + rest.length = pos + data.length by omega,
          List.append_assoc _ piece, hsplit]
    rcases Nat.lt_or_eq_of_le hgap with hk | hk
    · rw [writeChunks_patch hd hk, hpiece, hrest]
      refine key _ _ (fun hfull => h.modify hk hple (Or.inl hfull)) ?_ (by simpa using hroom)
      have := content_modify (z := z) piece h hk hmod (by rw [hdm]; exact hpos)
      rwa [hdm] at this
    · have hlast := length_content_le h.bounded
      rw [← hk] at hlast
      have hend : (content cap B).length = pos := by omega
      have hzero : pos % cap = 0 := by omega
      cases room with
      | zero => rw [Nat.add_zero, ← hk] at hroom; omega
      | succ room =>
        rw [writeChunks_append hd hk.ge, hpiece, hrest, hzero]
        have hfullB : (content cap B).length = cap * B.length := by rw [← hk]; omega
        rw [patch_zero_nil]
        refine key _ _ (fun _ => h.append_chunk hfullB (by omega)) ?_ ?_
        · rw [content_append_chunk h hfullB, List.take_of_length_le hend.le,
            List.drop_of_length_le (by omega)]
          simp
        · rw [List.length_append, List.length_singleton, Nat.add_assoc, Nat.add_comm 1 room]
          exact hroom

/-! ### Reading -/

/-- A read that returns something starts inside a chunk. -/
theorem readChunks_ne_nil {fuel : Nat} {B : List (List α)} {pos need : Nat}
    (h : readChunks cap fuel B pos need ≠ []) :
    ∃ v, B[pos / cap]? = some v ∧ pos % cap < v.length := by
  cases fuel with
  | zero => exact absurd rfl h
  | succ fuel =>
    rcases hv : B[pos / cap]? with _ | v
    · simp [readChunks, hv] at h
    · refine ⟨v, rfl, ?_⟩
      by_contra hle
      simp [readChunks, hv, List.drop_of_length_le (Nat.not_lt.mp hle)] at h

/-- The content goes on behind a full chunk. -/
theorem content_cons_full {v : List α} {B : List (List α)} (h : v.length = cap) :
    content cap (v :: B) = v ++ content cap B := if_pos h

/-- The content ends with a chunk that is not full. -/
theorem content_cons_short {v : List α} {B : List (List α)} (h : v.length ≠ cap) :
    content cap (v :: B) = v := if_neg h

/-- The elements a read from `pos` on reaches. -/
def contentFrom (cap : Nat) (B : List (List α)) (pos : Nat) : List α :=
  (content cap (B.drop (pos / cap))).drop (pos % cap)

/-- The chunks from an index on start with the chunk there. -/
theorem drop_of_getElem? {B : List (List α)} {k : Nat} {v : List α} (hv : B[k]? = some v) :
    B.drop k = v :: B.drop (k + 1) := by
  obtain ⟨hlt, hget⟩ := List.getElem?_eq_some_iff.mp hv
  rw [List.drop_eq_getElem_cons hlt, hget]

/-- Past the last chunk there is nothing. -/
theorem contentFrom_past {B : List (List α)} {pos : Nat} (h : B[pos / cap]? = none) :
    contentFrom cap B pos = [] := by
  rw [contentFrom, List.drop_of_length_le (List.getElem?_eq_none_iff.mp h), content, List.drop_nil]

/-- Nor is there at the end of a chunk that is not full. -/
theorem contentFrom_end (hcap : 0 < cap) {B : List (List α)} {pos : Nat} {v : List α}
    (hv : B[pos / cap]? = some v) (hend : v.length ≤ pos % cap) : contentFrom cap B pos = [] := by
  have hmod := Nat.mod_lt pos hcap
  rw [contentFrom, drop_of_getElem? hv, content_cons_short (by omega),
    List.drop_of_length_le hend]

/-- A piece of a chunk, and what comes after it. -/
theorem contentFrom_piece (hcap : 0 < cap) {B : List (List α)} {pos n : Nat} {v : List α}
    (hv : B[pos / cap]? = some v) (hle : v.length ≤ cap) (hn : pos % cap + n ≤ v.length) :
    contentFrom cap B pos = (v.drop (pos % cap)).take n ++ contentFrom cap B (pos + n) := by
  have hdrop := drop_of_getElem? hv
  by_cases hsame : pos % cap + n < cap
  · -- the position after the piece is in the same chunk
    obtain ⟨hdiv, hmod⟩ := div_add_of_lt hcap hsame
    have hsplit : (v.drop (pos % cap)).take n ++ v.drop (pos % cap + n) = v.drop (pos % cap) := by
      rw [← List.drop_drop, List.take_append_drop]
    rw [contentFrom, contentFrom, hdiv, hmod, hdrop]
    by_cases hfull : v.length = cap
    · rw [content_cons_full hfull, List.drop_append_of_le_length (by omega),
        List.drop_append_of_le_length hn, ← List.append_assoc, hsplit]
    · rw [content_cons_short hfull, hsplit]
  · -- the piece is the rest of a full chunk
    have hfull : v.length = cap := by omega
    have hall : n = v.length - pos % cap := by omega
    have hnext := next_boundary pos hcap
    rw [contentFrom, contentFrom, hall, hfull, hnext.1, hnext.2, List.drop_zero, hdrop,
      content_cons_full hfull, List.drop_append_of_le_length (by omega),
      List.take_of_length_le (by rw [List.length_drop]; omega)]

/-- **Read.**  A read returns what the content of the chunks from its position on holds. -/
theorem readChunks_eq (hcap : 0 < cap) (fuel : Nat) (B : List (List α)) (pos need : Nat)
    (hf : need ≤ fuel) (hb : Bounded cap B) :
    readChunks cap fuel B pos need = (contentFrom cap B pos).take need := by
  induction fuel generalizing pos need with
  | zero =>
    obtain rfl : need = 0 := by omega
    rw [List.take_zero]
    rfl
  | succ fuel ih =>
    rcases hv : B[pos / cap]? with _ | v
    · simp only [readChunks, hv]
      rw [contentFrom_past hv, List.take_nil]
    simp only [readChunks, hv]
    generalize hgot : (v.drop (pos % cap)).take need = got
    by_cases hnil : got = []
    · -- nothing is wanted, or the chunk ends here
      rw [if_pos hnil]
      rw [hnil] at hgot
      rcases List.take_eq_nil_iff.mp hgot with rfl | hend
      · rw [List.take_zero]
      · rw [contentFrom_end hcap hv (List.drop_eq_nil_iff.mp hend), List.take_nil]
    · rw [if_neg hnil]
      have hpos := List.length_pos_of_ne_nil hnil
      have hlen : got.length = min need (v.length - pos % cap) := by
        rw [← hgot, List.length_take, List.length_drop]
      have hpiece : (v.drop (pos % cap)).take got.length = got := by
        rw [hlen, ← List.length_drop, ← List.take_take, List.take_length, hgot]
      rw [ih _ _ (by omega), contentFrom_piece (n := got.length) hcap hv
        (hb v (List.mem_of_getElem? hv)) (by omega), hpiece, List.take_append,
        List.take_of_length_le (by omega : got.length ≤ need)]

/-- The chunks from an index on hold the content from its first position on. -/
theorem GapFree.content_drop {B : List (List α)} (h : GapFree cap B) (k : Nat) :
    content cap (B.drop k) = (content cap B).drop (cap * k) := by
  induction k generalizing B with
  | zero => simp
  | succ k ih =>
    obtain _ | ⟨v, B⟩ := B
    · simp [content]
    have hmul : cap * (k + 1) = cap + cap * k := by ring
    rw [List.drop_succ_cons, ih h.2.2, hmul]
    by_cases hv : v.length = cap
    · rw [content_cons_full hv, ← hv, List.drop_length_add_append]
    · have hB : B = [] := by
        by_contra hne
        exact hv (h.2.1 hne)
      subst hB
      have hle : v.length ≤ cap + cap * k := h.1.trans (Nat.le_add_right _ _)
      rw [content_cons_short hv, List.drop_of_length_le hle]
      exact List.drop_nil

/-- **Read, without a gap.** -/
theorem GapFree.readChunks_eq (hcap : 0 < cap) {B : List (List α)} (h : GapFree cap B)
    (fuel pos need : Nat) (hf : need ≤ fuel) :
    readChunks cap fuel B pos need = ((content cap B).drop pos).take need := by
  rw [Lib.readChunks_eq hcap fuel B pos need hf h.bounded, contentFrom, h.content_drop,
    List.drop_drop, div_mod_eq]

/-- A position in the content of chunks without a gap is in its chunk, or at the end of it. -/
theorem GapFree.mod_le_length (hcap : 0 < cap) {B : List (List α)} (h : GapFree cap B) {pos : Nat}
    (hpos : pos ≤ (content cap B).length) {v : List α} (hv : B[pos / cap]? = some v) :
    pos % cap ≤ v.length := by
  obtain ⟨hlt, hget⟩ := List.getElem?_eq_some_iff.mp hv
  have hdm := div_mod_eq cap pos
  have hlen := congrArg List.length (h.content_drop (pos / cap))
  rw [List.drop_eq_getElem_cons hlt, hget, List.length_drop] at hlen
  by_cases hfull : v.length = cap
  · exact hfull ▸ (Nat.mod_lt pos hcap).le
  · rw [content_cons_short hfull] at hlen
    omega

/-- The content is part of what the chunks hold together. -/
theorem length_content_le_flatten (cap : Nat) (B : List (List α)) :
    (content cap B).length ≤ B.flatten.length := by
  induction B with
  | nil => simp [content]
  | cons v B ih =>
    rw [content, List.flatten_cons, List.length_append]
    split
    · rw [List.length_append]
      omega
    · omega

/-! ### Writes that reach the end -/

/-- All chunks but the last of a file without gaps are full. -/
theorem GapFree.le_length_content {B : List (List α)} (h : GapFree cap B) {k : Nat}
    (hk : k < B.length) : cap * k ≤ (content cap B).length := by
  induction k generalizing B with
  | zero => simp
  | succ k ih =>
    obtain _ | ⟨v, B⟩ := B
    · simp at hk
    have hk' : k < B.length := by simpa using hk
    have hv : v.length = cap := h.2.1 (List.ne_nil_of_length_pos (by omega))
    have htail := ih h.2.2 hk'
    have hmul : cap * (k + 1) = cap + cap * k := by ring
    rw [content_cons_full hv, List.length_append, hv, hmul]
    omega

/-- **A write that reaches the end** of a file without gaps makes no gap, even when it runs
    out of room. -/
theorem GapFree.writeChunks {z : α} (hcap : 0 < cap) (fuel : Nat) (B : List (List α))
    (room pos : Nat) (data : List α) (h : GapFree cap B) (hpos : pos ≤ (content cap B).length)
    (hend : (content cap B).length ≤ pos + data.length) :
    GapFree cap (writeChunks z cap fuel B room pos data).1 := by
  induction fuel generalizing B room pos data with
  | zero => exact h
  | succ fuel ih =>
    by_cases hd : data = []
    · rw [hd, writeChunks_nil]
      exact h
    have hmod := Nat.mod_lt pos hcap
    have hdm := div_mod_eq cap pos
    have hgap := div_le_length h.bounded hpos
    generalize hpiece : data.take (cap - pos % cap) = piece
    generalize hrest : data.drop (cap - pos % cap) = rest
    have hlen : piece.length + rest.length = data.length := by
      rw [← hpiece, ← hrest, ← List.length_append, List.take_append_drop]
    have hple : pos % cap + piece.length ≤ cap := by
      rw [← hpiece, List.length_take]
      omega
    have hshort : pos % cap + piece.length ≠ cap → rest = [] := by
      intro hlt
      rw [← hrest]
      refine List.drop_of_length_le ?_
      rw [← hpiece, List.length_take] at hlt hple
      omega
    rcases Nat.lt_or_eq_of_le hgap with hk | hk
    · rw [writeChunks_patch hd hk, hpiece, hrest]
      -- a piece that does not fill its chunk reaches the end inside it
      have hlast : pos % cap + piece.length = cap ∨ pos / cap + 1 = B.length := by
        by_contra hor
        rw [not_or] at hor
        have hnil := hshort hor.1
        have hfull := h.le_length_content (show pos / cap + 1 < B.length by omega)
        rw [hnil, List.length_nil] at hlen
        rw [Nat.mul_add, Nat.mul_one] at hfull
        omega
      have hcont := content_modify (z := z) piece h hk hmod (by rw [hdm]; exact hpos)
      rw [hdm] at hcont
      refine ih _ _ _ _ (h.modify hk hple hlast) ?_ ?_
      · rw [hcont]
        simp only [List.length_append, List.length_take]
        omega
      · rw [hcont]
        simp only [List.length_append, List.length_take]
        split
        · rw [List.length_drop]
          omega
        · rw [List.length_nil]
          omega
    · have hlast := length_content_le h.bounded
      rw [← hk] at hlast
      cases room with
      | zero =>
        rw [writeChunks_full hk.ge]
        exact h
      | succ room =>
        have hzero : pos % cap = 0 := by omega
        have hfull : (content cap B).length = cap * B.length := by rw [← hk]; omega
        rw [writeChunks_append hd hk.ge, hpiece, hrest, hzero, patch_zero_nil]
        refine ih _ _ _ _ (h.append_chunk hfull (by omega)) ?_ ?_
        · rw [content_append_chunk h hfull, List.length_append]
          omega
        · rw [content_append_chunk h hfull, List.length_append]
          omega

/-- **A write that ends on a boundary** makes no gap either, wherever it ends. -/
theorem GapFree.writeChunks_boundary {z : α} (hcap : 0 < cap) (fuel : Nat) (B : List (List α))
    (room pos : Nat) (data : List α) (h : GapFree cap B) (hpos : pos ≤ (content cap B).length)
    (hend : cap ∣ pos + data.length) :
    GapFree cap (Lib.writeChunks z cap fuel B room pos data).1 := by
  -- by induction on the turns: every piece ends where its chunk does
  induction fuel generalizing B room pos data with
  | zero => exact h
  | succ fuel ih =>
    by_cases hd : data = []
    · rw [hd, writeChunks_nil]
      exact h
    have hmod := Nat.mod_lt pos hcap
    have hdm := div_mod_eq cap pos
    have hgap := div_le_length h.bounded hpos
    have hne := List.length_pos_iff.mpr hd
    generalize hpiece : data.take (cap - pos % cap) = piece
    generalize hrest : data.drop (cap - pos % cap) = rest
    have hlen : piece.length + rest.length = data.length := by
      rw [← hpiece, ← hrest, ← List.length_append, List.take_append_drop]
    have hpl : piece.length = min (cap - pos % cap) data.length := by
      rw [← hpiece, List.length_take]
    have hfull : pos % cap + piece.length = cap := by
      by_contra hshort
      have hwhole : pos + piece.length = pos + data.length := by omega
      exact hshort ((dvd_add_iff_of_le (by omega) (by omega)).mp (hwhole ▸ hend))
    have hend' : cap ∣ pos + piece.length + rest.length := by rwa [Nat.add_assoc, hlen]
    rcases Nat.lt_or_eq_of_le hgap with hk | hk
    · rw [writeChunks_patch hd hk, hpiece, hrest]
      have hcont := content_modify (z := z) piece h hk hmod (by rw [hdm]; exact hpos)
      rw [hdm, if_pos hfull] at hcont
      exact ih _ _ _ _ (h.modify hk hfull.le (Or.inl hfull)) (overlay_ends hpos hcont).1 hend'
    · have hlast := length_content_le h.bounded
      rw [← hk] at hlast
      cases room with
      | zero =>
        rw [writeChunks_full hk.ge]
        exact h
      | succ room =>
        have hzero : pos % cap = 0 := by omega
        have hfullB : (content cap B).length = cap * B.length := by rw [← hk]; omega
        rw [writeChunks_append hd hk.ge, hpiece, hrest, hzero, patch_zero_nil]
        refine ih _ _ _ _ (h.append_chunk hfullB (by omega)) ?_ hend'
        rw [content_append_chunk h hfullB, List.length_append]
        omega

/-! ### Writes that cut nothing off -/

/-- How many chunks `n` elements fill: a file has at least one. -/
def chunksFor (cap n : Nat) : Nat := max 1 ((n + (cap - 1)) / cap)

/-- They hold that many. -/
theorem le_mul_chunksFor (hcap : 0 < cap) (n : Nat) : n ≤ cap * chunksFor cap n := by
  have hdiv := Nat.div_add_mod (n + (cap - 1)) cap
  have hmod := Nat.mod_lt (n + (cap - 1)) hcap
  have hle := Nat.mul_le_mul_left cap (Nat.le_max_right 1 ((n + (cap - 1)) / cap))
  rw [chunksFor]
  omega

/-- More elements need no fewer chunks. -/
theorem chunksFor_mono (cap : Nat) {m n : Nat} (h : m ≤ n) : chunksFor cap m ≤ chunksFor cap n :=
  max_le_max_left 1 (Nat.div_le_div_right (Nat.add_le_add_right h _))

/-- No gaps, and only the first chunk may be empty: no chunk is there for nothing. -/
structure Snug (cap : Nat) (B : List (List α)) : Prop where
  gapFree : GapFree cap B
  ne_nil : B ≠ []
  used : ∀ v ∈ B.tail, v ≠ []

/-- **The number of chunks** is what the content needs. -/
theorem Snug.length_eq (hcap : 0 < cap) {B : List (List α)} (h : Snug cap B) :
    B.length = chunksFor cap (content cap B).length := by
  induction B with
  | nil => exact absurd rfl h.ne_nil
  | cons v B ih =>
    have hle := h.gapFree.1
    by_cases hB : B = []
    · subst hB
      have hone : (content cap [v]).length ≤ cap := by
        have := length_content_le h.gapFree.bounded
        simpa using this
      have hdiv : ((content cap [v]).length + (cap - 1)) / cap ≤ 1 := by
        apply Nat.le_of_lt_succ
        rw [Nat.div_lt_iff_lt_mul hcap]
        omega
      rw [chunksFor, Nat.max_eq_left hdiv]
      rfl
    · have hv : v.length = cap := h.gapFree.2.1 hB
      obtain ⟨w, B', rfl⟩ := List.exists_cons_of_ne_nil hB
      have htail : Snug cap (w :: B') :=
        ⟨h.gapFree.2.2, hB, fun x hx => h.used x (List.mem_cons_of_mem w hx)⟩
      -- the rest is not empty, so that its chunks are counted exactly
      have hpos : 0 < (content cap (w :: B')).length := by
        have hw := List.length_pos_iff.mpr (h.used w (List.mem_cons_self ..))
        rw [content]
        split
        · rw [List.length_append]
          omega
        · exact hw
      have hone : 1 ≤ ((content cap (w :: B')).length + (cap - 1)) / cap := by
        rw [Nat.le_div_iff_mul_le hcap]
        omega
      have hsum : ((content cap (v :: w :: B')).length + (cap - 1)) / cap =
          ((content cap (w :: B')).length + (cap - 1)) / cap + 1 := by
        rw [content_cons_full hv, List.length_append, hv, Nat.add_assoc, Nat.add_comm cap,
          Nat.add_div_right _ hcap]
      rw [List.length_cons, ih htail, chunksFor, chunksFor, hsum, Nat.max_eq_right hone,
        Nat.max_eq_right (by omega)]

/-- A chunk patched with a piece that is not empty is not empty. -/
theorem patch_ne_nil {z : α} {o : Nat} {piece v : List α} (h : piece ≠ []) :
    patch z o piece v ≠ [] := by
  have := List.length_pos_iff.mpr h
  refine List.ne_nil_of_length_pos ?_
  rw [length_patch]
  omega

/-- A write leaves no chunk empty that was not. -/
theorem used_writeChunks {z : α} (hcap : 0 < cap) (fuel : Nat) (B : List (List α))
    (room pos : Nat) (data : List α) (hne : B ≠ []) (h : ∀ v ∈ B.tail, v ≠ []) :
    (Lib.writeChunks z cap fuel B room pos data).1 ≠ [] ∧
      ∀ v ∈ (Lib.writeChunks z cap fuel B room pos data).1.tail, v ≠ [] := by
  induction fuel generalizing B room pos data with
  | zero => exact ⟨hne, h⟩
  | succ fuel ih =>
    by_cases hd : data = []
    · rw [hd, writeChunks_nil]
      exact ⟨hne, h⟩
    have hmod := Nat.mod_lt pos hcap
    have hpiece : data.take (cap - pos % cap) ≠ [] := by
      rw [ne_eq, List.take_eq_nil_iff, not_or]
      exact ⟨by omega, hd⟩
    obtain ⟨v, B, rfl⟩ := List.exists_cons_of_ne_nil hne
    by_cases hk : pos / cap < (v :: B).length
    · rw [writeChunks_patch hd hk]
      refine ih _ _ _ _ (List.ne_nil_of_length_pos (by rw [List.length_modify]; simp)) ?_
      intro x hx
      rcases hidx : pos / cap with _ | k
      · rw [hidx, List.modify_zero_cons] at hx
        exact h x hx
      · rw [hidx, List.modify_succ_cons, List.tail_cons] at hx
        rcases List.mem_iff_getElem?.mp hx with ⟨j, hj⟩
        rw [List.getElem?_modify] at hj
        obtain ⟨y, hy, rfl⟩ := Option.map_eq_some_iff.mp hj
        by_cases hkj : k = j
        · simpa [hkj] using patch_ne_nil hpiece
        · simpa [hkj] using h y (List.mem_of_getElem? hy)
    · cases room with
      | zero =>
        rw [writeChunks_full (Nat.not_lt.mp hk)]
        exact ⟨hne, h⟩
      | succ room =>
        rw [writeChunks_append hd (Nat.not_lt.mp hk)]
        refine ih _ _ _ _ (by simp) fun x hx => ?_
        rw [List.cons_append, List.tail_cons, List.mem_append, List.mem_singleton] at hx
        rcases hx with hx | rfl
        · exact h x hx
        · exact patch_ne_nil hpiece

/-- A write that reaches the end of the content, or ends on a chunk boundary, cuts nothing off. -/
def CutsNothing (cap : Nat) (c : List α) (pos : Nat) (data : List α) : Prop :=
  c.length ≤ pos + data.length ∨ cap ∣ pos + data.length

instance (cap : Nat) (c : List α) (pos : Nat) (data : List α) :
    Decidable (CutsNothing cap c pos data) :=
  inferInstanceAs (Decidable (_ ∨ _))

/-- Chunks that are snug stay snug when a write cuts nothing off. -/
theorem Snug.writeChunks {z : α} (hcap : 0 < cap) {fuel : Nat} {B : List (List α)}
    {room pos : Nat} {data : List α} (h : Snug cap B) (hpos : pos ≤ (content cap B).length)
    (hcuts : CutsNothing cap (content cap B) pos data) :
    Snug cap (Lib.writeChunks z cap fuel B room pos data).1 := by
  obtain ⟨hne, hused⟩ := used_writeChunks (z := z) hcap fuel B room pos data h.ne_nil h.used
  refine ⟨?_, hne, hused⟩
  rcases hcuts with hend | hend
  · exact h.gapFree.writeChunks hcap fuel B room pos data hpos hend
  · exact h.gapFree.writeChunks_boundary hcap fuel B room pos data hpos hend

/-- **Such a write is an overlay** of the content. -/
theorem Snug.content_writeChunks {z : α} (hcap : 0 < cap) {fuel : Nat} {B : List (List α)}
    {room pos : Nat} {data : List α} (h : Snug cap B) (hd : data ≠ []) (hf : data.length ≤ fuel)
    (hpos : pos ≤ (content cap B).length) (hcuts : CutsNothing cap (content cap B) pos data)
    (hroom : pos + data.length ≤ cap * (B.length + room)) :
    content cap (Lib.writeChunks z cap fuel B room pos data).1 =
      overlay (content cap B) pos data := by
  rw [Lib.content_writeChunks hcap fuel B room pos data hd hf h.gapFree hpos hroom, overlay_eq_iff]
  split
  · rfl
  · rename_i hinside
    exact (List.drop_of_length_le (hcuts.resolve_right hinside)).symm

/-- **A write that fits** is complete, leaves chunks of the same kind, and is an overlay. -/
theorem Snug.overlays {z : α} (hcap : 0 < cap) {fuel : Nat} {B : List (List α)} {room pos : Nat}
    {data : List α} (h : Snug cap B) (hf : data.length ≤ fuel)
    (hpos : pos ≤ (content cap B).length)
    (hfits : data = [] ∨ CutsNothing cap (content cap B) pos data ∧
      pos + data.length ≤ cap * (B.length + room)) :
    (Lib.writeChunks z cap fuel B room pos data).2 = [] ∧
      Snug cap (Lib.writeChunks z cap fuel B room pos data).1 ∧
      content cap (Lib.writeChunks z cap fuel B room pos data).1 =
        overlay (content cap B) pos data := by
  by_cases hd : data = []
  · subst hd
    rw [writeChunks_nil]
    refine ⟨rfl, h, ?_⟩
    simp [overlay]
  · obtain ⟨hcuts, hroom⟩ := hfits.resolve_left hd
    refine ⟨?_, h.writeChunks hcap hpos hcuts, h.content_writeChunks hcap hd hf hpos hcuts hroom⟩
    rw [writeChunks_rest hcap _ _ _ _ _ hf (div_le_length h.gapFree.bounded hpos),
      List.drop_eq_nil_iff]
    omega

/-- An overlay ends where the longer one does. -/
theorem length_overlay_eq {c : List α} {pos : Nat} (data : List α) (h : pos ≤ c.length) :
    (overlay c pos data).length = max c.length (pos + data.length) := by
  simp only [overlay, List.length_append, List.length_take, List.length_drop]
  omega

end Content

end MiniExt.Lib
