import MiniExt.Disk.Machine
import MiniExt.Disk.Runs

namespace MiniExt

open Lib

/-!
# Rejected blocks

A block that carries both records and data is rejected by `write_block`, and `read_block` crashes
on one.  But `write_block` looks at its counts only after it has stored the header, so the header
of the rejected block stays in the image.  This file says for which blocks and which images
that, and the order of the other writes, leaves everything readable.

* `Block.Mixed`, `Block.Fits`, `Block.Carries` — what a block value counts, and what it has;
* `Readable` — `read_block` succeeds on an image;
* `readable_iff` — that is a matter of the header and of the length of the image;
* `WritesSafely`, `KeepsImage` — the property of a write, and the condition for it;
* `writesSafely_iff` — a write is safe exactly under that condition.
-/

/-! ### Block values -/

/-- The records and the data that the header counts fit the block. -/
def BlockInfo.Fits (info : FsInfo) (header : BlockInfo) : Prop :=
  sizeofBlockInfo + header.recordsCount * sizeofBlockRecord info ≤ info.blockSize ∧
    sizeofBlockInfo + header.dataSize ≤ info.blockSize

/-- What the header counts is what the block has: `block_records` is not `NULL` where records
    are counted, and is `NULL` where data is. -/
def Block.Carries (block : Block) : Prop :=
  (block.info.recordsCount ≠ 0 → block.records ≠ none) ∧
    (block.info.dataSize ≠ 0 → block.records = none)

/-- A block value: numbers of the widths of their fields, and buffers as long as the code
    allocates them. -/
structure Block.Valid (info : FsInfo) (block : Block) : Prop where
  blockId_lt : block.info.blockId < 2 ^ 16
  inodeId_lt : block.info.inodeId < 2 ^ 16
  recordsCount_lt : block.info.recordsCount < 2 ^ 8
  dataSize_lt : block.info.dataSize < 2 ^ 16
  buffers : BlockWritable info block

/-- How many bytes `write_block` stores after the header of a block that it accepts. -/
def Block.storedSize (info : FsInfo) (block : Block) : Nat :=
  match block.records with
  | some _ => block.info.recordsCount * sizeofBlockRecord info
  | none => if block.info.dataSize = 0 then 0 else maxSizeOfData info

/-! ### Blocks that are read -/

/-- `read_block` succeeds on the image, wherever the file stands before. -/
def Readable (info : FsInfo) (bytes : List UInt8) (blockId : Nat) : Prop :=
  ∀ pos, ∃ block f, (Device.readBlock info blockId).run? fileHandler ⟨bytes, pos⟩ =
    some (.done (.read block), f)

section Reads

variable {info : FsInfo}

/-- Where `read_block` comes to a result, it has a block exactly if its header is not mixed. -/
theorem readBlock_succeeds_iff {blockId : Nat} {f f' : ImageFile} {r : ReadBlockResult}
    (hrun : (Device.readBlock info blockId).run? fileHandler f = some (.done r, f')) :
    (∃ block, r = .read block) ↔
      ¬ (f.headerAt (f.seek (blockOffset info blockId)).pos).Mixed := by
  rcases run?_readBlock_cases rfl hrun with ⟨hmixed, rfl⟩ | ⟨hmixed, block, rfl, _⟩
  · refine iff_of_false ?_ fun h => h hmixed
    rintro ⟨block, hread⟩
    cases hread
  · exact iff_of_true ⟨block, rfl⟩ hmixed

/-- The header at an offset does not depend on the position before. -/
theorem headerAt_seek {offset : Int} (hoffset : 0 ≤ offset) (bytes : List UInt8) (pos : Nat) :
    (ImageFile.mk bytes pos).headerAt ((ImageFile.mk bytes pos).seek offset).pos =
      (ImageFile.mk bytes 0).headerAt offset.toNat := by
  rw [ImageFile.seek_eq hoffset]
  rfl

/-- The header of a block in an image. -/
def headerOf (info : FsInfo) (bytes : List UInt8) (blockId : Nat) : BlockInfo :=
  (ImageFile.mk bytes 0).headerAt (blockOffset info blockId).toNat

/-- Where `read_block` comes to a result. -/
theorem blockAnswered_iff {bytes : List UInt8} {blockId : Nat}
    (hoffset : 0 ≤ blockOffset info blockId) (pos : Nat) :
    BlockAnswered info blockId ⟨bytes, pos⟩ ↔
      (blockOffset info blockId).toNat + sizeofBlockInfo +
        (headerOf info bytes blockId).bodySize info ≤ bytes.length ∧
      (headerOf info bytes blockId).DataFits info := by
  unfold BlockAnswered BlockInside ImageFile.Inside headerOf
  generalize blockOffset info blockId = offset at hoffset ⊢
  dsimp only
  rw [headerAt_seek hoffset, ImageFile.seek_eq hoffset]
  generalize (ImageFile.mk bytes 0).headerAt offset.toNat = header
  have hpos : 0 < sizeofBlockInfo := Nat.zero_lt_succ 6
  refine and_congr_left fun _ => ?_
  show sizeofBlockInfo ≤ bytes.length - offset.toNat ∧
    sizeofBlockInfo + header.bodySize info ≤ bytes.length - offset.toNat ↔ _
  omega

/-- **A block is readable** exactly if it does not start before the image, its header is not
    mixed and counts no more data than the buffer takes, and what it counts lies in the image. -/
theorem readable_iff {bytes : List UInt8} {blockId : Nat} :
    Readable info bytes blockId ↔ 0 ≤ blockOffset info blockId ∧
      ((blockOffset info blockId).toNat + sizeofBlockInfo +
        (headerOf info bytes blockId).bodySize info ≤ bytes.length ∧
        (headerOf info bytes blockId).DataFits info) ∧
      ¬ (headerOf info bytes blockId).Mixed := by
  constructor
  · intro h
    have hoffset : 0 ≤ blockOffset info blockId := by
      by_contra hneg
      -- the read starts where the file stands, and that may be its end
      obtain ⟨block, f, hrun⟩ := h bytes.length
      have hread := (returns_readBlock info blockId _).mp ⟨_, _, hrun⟩
      have hshort : sizeofBlockInfo ≤ bytes.length - bytes.length := by
        have hhead := hread.1.1
        generalize blockOffset info blockId = offset at hneg hhead
        rwa [show (ImageFile.mk bytes bytes.length).seek offset = ⟨bytes, bytes.length⟩ from
          if_pos (Int.not_le.mp hneg)] at hhead
      rw [Nat.sub_self] at hshort
      exact absurd hshort (by decide)
    obtain ⟨block, f, hrun⟩ := h 0
    have hread := (returns_readBlock info blockId _).mp ⟨_, _, hrun⟩
    refine ⟨hoffset, (blockAnswered_iff hoffset 0).mp hread, ?_⟩
    unfold headerOf
    rw [← headerAt_seek hoffset bytes 0]
    exact (readBlock_succeeds_iff hrun).mp ⟨block, rfl⟩
  · rintro ⟨hoffset, hinside, hmixed⟩ pos
    obtain ⟨r, f, hrun⟩ := (returns_readBlock info blockId _).mpr
      ((blockAnswered_iff hoffset pos).mpr hinside)
    have hclean : ¬ ((ImageFile.mk bytes pos).headerAt
        ((ImageFile.mk bytes pos).seek (blockOffset info blockId)).pos).Mixed := by
      rw [headerAt_seek hoffset]
      exact hmixed
    obtain ⟨block, rfl⟩ := (readBlock_succeeds_iff hrun).mpr hclean
    exact ⟨block, f, hrun⟩

/-- A header that was found in an image. -/
theorem headerOf_of_holdsAt {bytes : List UInt8} {blockId : Nat} {header : BlockInfo}
    (h : HoldsAt bytes (blockOffset info blockId).toNat (encodeBlockInfo header))
    (hdecode : decodeBlockInfo (encodeBlockInfo header) = header) :
    headerOf info bytes blockId = header := by
  have htake := h.take_eq
  rw [length_encodeBlockInfo] at htake
  unfold headerOf ImageFile.headerAt
  rw [htake, hdecode]

/-- A header survives what is stored beside it. -/
theorem headerOf_writeAt {bytes data : List UInt8} {blockId offset : Nat}
    (hlen : (blockOffset info blockId).toNat + sizeofBlockInfo ≤ bytes.length)
    (hapart : offset + data.length ≤ (blockOffset info blockId).toNat ∨
      (blockOffset info blockId).toNat + sizeofBlockInfo ≤ offset) :
    headerOf info (writeAt 0 bytes offset data) blockId = headerOf info bytes blockId := by
  unfold headerOf ImageFile.headerAt
  generalize (blockOffset info blockId).toNat = start at hlen hapart ⊢
  have htake : ((bytes.drop start).take sizeofBlockInfo).length = sizeofBlockInfo := by
    rw [List.length_take, List.length_drop]
    omega
  have hholds : HoldsAt bytes start ((bytes.drop start).take sizeofBlockInfo) :=
    List.take_prefix _ _
  have hsame := (hholds.writeAt (z := 0) (htake.symm ▸ hapart)).take_eq
  rw [htake] at hsame
  show decodeBlockInfo (((writeAt 0 bytes offset data).drop start).take sizeofBlockInfo) =
    decodeBlockInfo ((bytes.drop start).take sizeofBlockInfo)
  rw [hsame]

end Reads

/-! ### Blocks that are written -/

section Writes

variable {info : FsInfo} {block : Block}

/-- The loop over the records puts as many bytes as they take. -/
theorem puts_records {count : Nat} {rs : List BlockRecord} (h : RecordsWritable info count rs) :
    ∃ data, data.length = count * sizeofBlockRecord info ∧
      Puts (Device.writeRecords info count rs) data true := by
  induction count generalizing rs with
  | zero => exact ⟨[], (Nat.zero_mul _).symm, puts_pure true⟩
  | succ count ih =>
    obtain ⟨hcount, hfields⟩ := h
    cases rs with
    | nil => exact absurd hcount (Nat.not_succ_le_zero count)
    | cons r rs =>
      rw [List.take_succ_cons, List.forall_mem_cons] at hfields
      obtain ⟨data, hlen, hputs⟩ := ih ⟨Nat.le_of_succ_le_succ hcount, hfields.2⟩
      have hrecord : Puts (Device.writeBlockRecord info r)
          (encodeLE 2 r.inodeId ++ r.path.take info.maxPathLen) true :=
        (puts_buffer (length_encodeLE 2 r.inodeId)).bind (puts_writeWhile hfields.1)
      refine ⟨encodeLE 2 r.inodeId ++ r.path.take info.maxPathLen ++ data, ?_, hrecord.bind hputs⟩
      rw [List.length_append, List.length_append, length_encodeLE,
        List.length_take_of_le hfields.1, hlen, Nat.add_mul, Nat.one_mul, Nat.add_comm]
      rfl

/-- A program that seeks first stores its data where the file then stands. -/
theorem Puts.seek {α : Type} {p : DeviceProg α} {data : List UInt8} {a : α} (hp : Puts p data a)
    (offset : Int) (f : ImageFile) : (do Device.lseek offset; p).run? fileHandler f =
      some (.done a, ⟨writeAt 0 f.bytes (f.seek offset).pos data,
        (f.seek offset).pos + data.length⟩) := by
  have hbytes : (f.seek offset).bytes = f.bytes := by
    unfold ImageFile.seek
    split <;> rfl
  rw [run?_seek, hp, hbytes]

/-- What `write_block` returns. -/
def BlockInfo.answer (header : BlockInfo) : WriteBlockResult :=
  if header.Mixed then .rejected else .stored

/-- **`write_block`** stores the header where the block starts, and after it the body of a block
    that is not mixed. -/
theorem putBlock (h : BlockWritable info block) :
    ∃ body : List UInt8, (block.info.Mixed → body = []) ∧
      (¬ block.info.Mixed → body.length = block.storedSize info) ∧
      ∀ f, ∃ pos, (Device.writeBlock info block).run? fileHandler f =
        some (.done block.info.answer,
          ⟨writeAt 0 f.bytes (f.seek (blockOffset info block.info.blockId)).pos
            (encodeBlockInfo block.info ++ body), pos⟩) := by
  have hheader : Puts (Device.writeWhile (encodeBlockInfo block.info) sizeofBlockInfo)
      (encodeBlockInfo block.info) true := puts_buffer rfl
  unfold Device.writeBlock BlockInfo.answer Block.storedSize
  generalize blockOffset info block.info.blockId = offset
  -- a block that counts both is rejected after its header
  by_cases hmixed : block.info.Mixed
  · have hmixed' : block.info.recordsCount ≠ 0 ∧ block.info.dataSize ≠ 0 := hmixed
    refine ⟨[], fun _ => rfl, fun hnot => absurd hmixed hnot, fun f =>
      ⟨_, Puts.seek (hheader.bind ?_) offset f⟩⟩
    simp only [Bool.not_true, Bool.false_eq_true, if_false, if_pos hmixed', if_pos hmixed]
    exact puts_pure _
  have hmixed' : ¬ (block.info.recordsCount ≠ 0 ∧ block.info.dataSize ≠ 0) := hmixed
  have hwritable := or_iff_right hmixed' |>.mp h
  simp only [hmixed, false_implies, not_false_eq_true, true_implies, true_and]
  rcases hrecords : block.records with _ | rs
  · rw [hrecords] at hwritable
    by_cases hdata : block.info.dataSize = 0
    · refine ⟨[], (if_pos hdata).symm, fun f =>
        ⟨_, Puts.seek (hheader.bind ?_) offset f⟩⟩
      simp only [Bool.not_true, Bool.false_eq_true, if_false, if_neg hmixed', if_pos hdata]
      exact puts_pure _
    · have hlen := or_iff_right hdata |>.mp hwritable
      refine ⟨block.data.take (maxSizeOfData info), ?_, fun f =>
        ⟨_, Puts.seek (hheader.bind ?_) offset f⟩⟩
      · simp only [if_neg hdata, List.length_take_of_le hlen]
      · simp only [Bool.not_true, Bool.false_eq_true, if_false, if_neg hmixed', if_neg hdata]
        exact (puts_writeWhile hlen).map rfl
  · rw [hrecords] at hwritable
    obtain ⟨data, hlen, hputs⟩ := puts_records hwritable
    refine ⟨data, hlen, fun f =>
      ⟨_, Puts.seek (hheader.bind ?_) offset f⟩⟩
    simp only [Bool.not_true, Bool.false_eq_true, if_false, if_neg hmixed']
    exact hputs.map rfl

/-- The body that is stored is the body the header counts, if the block has what its header
    counts, and else there is none. -/
theorem storedSize_eq (hsize : info.blockSize < 2 ^ 16) (hmixed : ¬ block.info.Mixed)
    (hfits : block.info.Fits info) :
    (block.Carries → block.info.bodySize info ≤ block.storedSize info) ∧
      (¬ block.Carries → block.storedSize info = 0 ∧ 0 < block.info.bodySize info) ∧
      block.storedSize info + sizeofBlockInfo ≤ info.blockSize ∧ block.info.DataFits info := by
  obtain ⟨hrecordsFit, hdataFits⟩ := hfits
  have hmax : maxSizeOfData info = info.blockSize - sizeofBlockInfo := by
    unfold maxSizeOfData
    unfold sizeofBlockInfo at hdataFits ⊢
    omega
  have hsizeof : 0 < sizeofBlockRecord info := Nat.zero_lt_of_lt (Nat.le_add_right 2 _)
  have hmixed' : ¬ (block.info.recordsCount ≠ 0 ∧ block.info.dataSize ≠ 0) := hmixed
  unfold Block.storedSize Block.Carries BlockInfo.bodySize BlockInfo.DataFits
  rw [if_neg hmixed', hmax]
  generalize block.info.recordsCount = count at hrecordsFit hmixed' ⊢
  generalize block.info.dataSize = size at hdataFits hmixed' ⊢
  -- records or data, whichever the header counts
  by_cases hcount : count = 0
  · rw [if_neg (not_not.mpr hcount), hcount, Nat.zero_mul]
    rcases block.records with _ | rs
    · by_cases hdata : size = 0
      · simp [hdata]
        omega
      · simp [hdata]
        omega
    · by_cases hdata : size = 0
      · simp [hdata]
        omega
      · simp [hdata]
        omega
  · have hdata : size = 0 := by
      by_contra hne
      exact hmixed' ⟨hcount, hne⟩
    have hpos : 0 < count * sizeofBlockRecord info :=
      Nat.mul_pos (Nat.pos_of_ne_zero hcount) hsizeof
    rcases block.records with _ | rs
    · simp [hdata, hcount]
      omega
    · simp [hdata, hcount]
      omega

/-- The blocks of an image do not overlap, wherever the `int` products put them. -/
theorem blockOffset_apart {i j : Nat} (hsize : info.blockSize < 2 ^ 16) (hi : i < 2 ^ 16)
    (hj : j < 2 ^ 16) (hne : i ≠ j) :
    blockOffset info i + info.blockSize ≤ blockOffset info j ∨
      blockOffset info j + info.blockSize ≤ blockOffset info i := by
  have hprod : ∀ n < 2 ^ 16, n * info.blockSize ≤ (2 ^ 16 - 1) * (2 ^ 16 - 1) := fun n hn =>
    Nat.mul_le_mul (by omega) (by omega)
  have hi' := hprod i hi
  have hj' := hprod j hj
  have happart : i * info.blockSize + info.blockSize ≤ j * info.blockSize ∨
      j * info.blockSize + info.blockSize ≤ i * info.blockSize := by
    rcases Nat.lt_or_gt_of_ne hne with hlt | hlt
    · exact .inl (Nat.succ_mul i _ ▸ Nat.mul_le_mul_right info.blockSize hlt)
    · exact .inr (Nat.succ_mul j _ ▸ Nat.mul_le_mul_right info.blockSize hlt)
  unfold blockOffset Int.bmod
  rw [← Int.natCast_mul, ← Int.natCast_mul]
  generalize i * info.blockSize = x at hi' happart ⊢
  generalize j * info.blockSize = y at hj' happart ⊢
  have hx : (x : Int) % ((2 ^ 32 : Nat) : Int) = x := by omega
  have hy : (y : Int) % ((2 ^ 32 : Nat) : Int) = y := by omega
  simp only [hx, hy]
  split <;> split <;> omega

end Writes

/-! ### Writes that keep the image -/

/-- **A write is safe** on an image: a block rejected as mixed changes no byte; a block that is
    accepted and fits can be read back; and neither makes another block unreadable. -/
structure WritesSafely (info : FsInfo) (block : Block) (bytes : List UInt8) : Prop where
  rejected : block.info.Mixed → ∀ pos f,
    (Device.writeBlock info block).run? fileHandler ⟨bytes, pos⟩ = some (.done .rejected, f) →
    f.bytes = bytes
  accepted : ¬ block.info.Mixed → block.info.Fits info → ∀ pos f,
    (Device.writeBlock info block).run? fileHandler ⟨bytes, pos⟩ = some (.done .stored, f) →
    Readable info f.bytes block.info.blockId
  others : block.info.Mixed ∨ block.info.Fits info → ∀ pos r f,
    (Device.writeBlock info block).run? fileHandler ⟨bytes, pos⟩ = some (.done r, f) →
    ∀ k < 2 ^ 16, Readable info bytes k → Readable info f.bytes k

/-- The condition for that: the block does not start before the image; the header of a mixed
    block is the one that is already there; and a block that is accepted has the body its header
    counts, unless that much follows the header in the image anyway. -/
structure KeepsImage (info : FsInfo) (block : Block) (bytes : List UInt8) : Prop where
  offset : block.info.Mixed ∨ block.info.Fits info → 0 ≤ blockOffset info block.info.blockId
  rejected : block.info.Mixed →
    HoldsAt bytes (blockOffset info block.info.blockId).toNat (encodeBlockInfo block.info)
  accepted : ¬ block.info.Mixed → block.info.Fits info → block.Carries ∨
    (blockOffset info block.info.blockId).toNat + sizeofBlockInfo + block.info.bodySize info ≤
      bytes.length

section Safety

variable {info : FsInfo} {block : Block} {bytes : List UInt8}

/-- The header of a block value is read back. -/
theorem Block.Valid.decodeHeader (h : block.Valid info) :
    decodeBlockInfo (encodeBlockInfo block.info) = block.info :=
  decodeBlockInfo_encodeBlockInfo h.blockId_lt h.inodeId_lt h.recordsCount_lt h.dataSize_lt

/-- A block is not encoded as nothing. -/
theorem encodeBlockInfo_append_ne_nil (header : BlockInfo) (body : List UInt8) :
    encodeBlockInfo header ++ body ≠ [] :=
  List.append_ne_nil_of_left_ne_nil (List.cons_ne_nil _ _) body

/-- The written block is readable exactly if its body lies in the image. -/
theorem readable_written_iff (hsize : info.blockSize < 2 ^ 16) (h : block.Valid info)
    (hmixed : ¬ block.info.Mixed) (hfits : block.info.Fits info)
    (hoffset : 0 ≤ blockOffset info block.info.blockId) {body : List UInt8}
    (hbody : body.length = block.storedSize info) :
    Readable info (writeAt 0 bytes (blockOffset info block.info.blockId).toNat
      (encodeBlockInfo block.info ++ body)) block.info.blockId ↔ block.Carries ∨
        (blockOffset info block.info.blockId).toNat + sizeofBlockInfo + block.info.bodySize info ≤
          bytes.length := by
  obtain ⟨hcarries, hlacks, -, hdata⟩ := storedSize_eq hsize hmixed hfits
  have hheader := headerOf_of_holdsAt (holdsAt_append.mp (holdsAt_writeAt 0 bytes
    (blockOffset info block.info.blockId).toNat (encodeBlockInfo block.info ++ body))).1
    h.decodeHeader
  rw [readable_iff, hheader, length_writeAt 0 bytes _ (encodeBlockInfo_append_ne_nil _ body),
    List.length_append, length_encodeBlockInfo, hbody]
  constructor
  · rintro ⟨-, ⟨hlen, -⟩, -⟩
    by_cases hhas : block.Carries
    · exact .inl hhas
    · obtain ⟨hnone, hpos⟩ := hlacks hhas
      right
      omega
  · intro hcase
    refine ⟨hoffset, ⟨?_, hdata⟩, hmixed⟩
    rcases hcase with hhas | hlen
    · have hle := hcarries hhas
      omega
    · omega

/-- Another block stays readable. -/
theorem readable_beside (hsize : info.blockSize < 2 ^ 16) (h : block.Valid info)
    (hmixed : ¬ block.info.Mixed) (hfits : block.info.Fits info)
    (hoffset : 0 ≤ blockOffset info block.info.blockId) {body : List UInt8}
    (hbody : body.length = block.storedSize info) {k : Nat} (hk : k < 2 ^ 16)
    (hne : k ≠ block.info.blockId) (hread : Readable info bytes k) :
    Readable info (writeAt 0 bytes (blockOffset info block.info.blockId).toNat
      (encodeBlockInfo block.info ++ body)) k := by
  obtain ⟨-, -, hroom, -⟩ := storedSize_eq hsize hmixed hfits
  obtain ⟨hoffset', ⟨hlen, hdata⟩, hmixed'⟩ := readable_iff.mp hread
  have happart := blockOffset_apart hsize hk h.blockId_lt hne
  have hstored : (encodeBlockInfo block.info ++ body).length =
      sizeofBlockInfo + block.storedSize info := by
    rw [List.length_append, length_encodeBlockInfo, hbody]
  have hheader : headerOf info (writeAt 0 bytes (blockOffset info block.info.blockId).toNat
      (encodeBlockInfo block.info ++ body)) k = headerOf info bytes k := by
    have hbeside : (blockOffset info block.info.blockId).toNat +
        (encodeBlockInfo block.info ++ body).length ≤ (blockOffset info k).toNat ∨
        (blockOffset info k).toNat + sizeofBlockInfo ≤
          (blockOffset info block.info.blockId).toNat := by
      rw [hstored]
      generalize blockOffset info block.info.blockId = offset at hoffset happart ⊢
      generalize blockOffset info k = offset' at hoffset' happart ⊢
      omega
    exact headerOf_writeAt ((Nat.le_add_right _ _).trans hlen) hbeside
  rw [readable_iff, hheader, length_writeAt 0 bytes _ (encodeBlockInfo_append_ne_nil _ body)]
  exact ⟨hoffset', ⟨hlen.trans (Nat.le_max_left _ _), hdata⟩, hmixed'⟩

/-- What a write leaves in the image, where the block does not start before it. -/
theorem putBlock_inside (h : block.Valid info)
    (hoffset : 0 ≤ blockOffset info block.info.blockId) :
    ∃ body : List UInt8, (block.info.Mixed → body = []) ∧
      (¬ block.info.Mixed → body.length = block.storedSize info) ∧
      ∀ pos, ∃ pos', (Device.writeBlock info block).run? fileHandler ⟨bytes, pos⟩ =
        some (.done block.info.answer,
          ⟨writeAt 0 bytes (blockOffset info block.info.blockId).toNat
            (encodeBlockInfo block.info ++ body), pos'⟩) := by
  obtain ⟨body, hempty, hbody, hrun⟩ := putBlock h.buffers
  refine ⟨body, hempty, hbody, ?_⟩
  intro pos
  obtain ⟨pos', hstart⟩ := hrun ⟨bytes, pos⟩
  refine ⟨pos', hstart.trans ?_⟩
  generalize blockOffset info block.info.blockId = offset at hoffset ⊢
  rw [ImageFile.seek_eq hoffset]

/-- A safe write does not start before the image. -/
theorem WritesSafely.offset (h : block.Valid info) (hsafe : WritesSafely info block bytes)
    (hcase : block.info.Mixed ∨ block.info.Fits info) :
    0 ≤ blockOffset info block.info.blockId := by
  obtain ⟨body, -, -, hrun⟩ := putBlock h.buffers
  by_contra hneg
  by_cases hmixed : block.info.Mixed
  · -- the header is stored where the file stands, and that may be its end
    obtain ⟨pos, hend⟩ := hrun ⟨bytes, bytes.length⟩
    have hanswer : block.info.answer = .rejected := if_pos hmixed
    rw [hanswer] at hend
    have hlonger := congrArg List.length (hsafe.rejected hmixed bytes.length _ hend)
    generalize blockOffset info block.info.blockId = offset at hneg hlonger
    rw [show (ImageFile.mk bytes bytes.length).seek offset = ⟨bytes, bytes.length⟩ from
        if_pos (Int.not_le.mp hneg),
      length_writeAt 0 bytes _ (encodeBlockInfo_append_ne_nil _ body), List.length_append,
      length_encodeBlockInfo] at hlonger
    have hmore : bytes.length < bytes.length + (sizeofBlockInfo + body.length) :=
      Nat.lt_add_of_pos_right (Nat.lt_of_lt_of_le (Nat.zero_lt_succ 6) (Nat.le_add_right _ _))
    rw [Nat.max_eq_right hmore.le] at hlonger
    exact absurd hlonger hmore.ne'
  · obtain ⟨pos, hstart⟩ := hrun ⟨bytes, 0⟩
    have hanswer : block.info.answer = .stored := if_neg hmixed
    rw [hanswer] at hstart
    have hread := hsafe.accepted hmixed (hcase.resolve_left hmixed) 0 _ hstart
    exact hneg (readable_iff.mp hread).1

/-- A safe write keeps the image. -/
theorem WritesSafely.keepsImage (hsize : info.blockSize < 2 ^ 16) (h : block.Valid info)
    (hsafe : WritesSafely info block bytes) : KeepsImage info block bytes := by
  refine ⟨hsafe.offset h, ?_, ?_⟩
  · intro hmixed
    obtain ⟨body, hempty, -, hrun⟩ := putBlock_inside h (hsafe.offset h (.inl hmixed))
    obtain ⟨pos, hstart⟩ := hrun 0
    have hanswer : block.info.answer = .rejected := if_pos hmixed
    rw [hanswer] at hstart
    have hrejected := hsafe.rejected hmixed 0 _ hstart
    have hsame : writeAt 0 bytes (blockOffset info block.info.blockId).toNat
        (encodeBlockInfo block.info ++ body) = bytes := hrejected
    have hholds := holdsAt_writeAt 0 bytes (blockOffset info block.info.blockId).toNat
      (encodeBlockInfo block.info ++ body)
    rw [hsame] at hholds
    exact (holdsAt_append.mp hholds).1
  · intro hmixed hfits
    have hoffset := hsafe.offset h (.inr hfits)
    obtain ⟨body, -, hbody, hrun⟩ := putBlock_inside h hoffset
    obtain ⟨pos, hstart⟩ := hrun 0
    have hanswer : block.info.answer = .stored := if_neg hmixed
    rw [hanswer] at hstart
    have hread := hsafe.accepted hmixed hfits 0 _ hstart
    exact (readable_written_iff hsize h hmixed hfits hoffset (hbody hmixed)).mp hread

/-- A write that keeps the image is safe. -/
theorem KeepsImage.writesSafely (hsize : info.blockSize < 2 ^ 16) (h : block.Valid info)
    (hkeeps : KeepsImage info block bytes) : WritesSafely info block bytes := by
  -- a rejected block changes nothing
  have hunchanged : block.info.Mixed → ∀ pos r f,
      (Device.writeBlock info block).run? fileHandler ⟨bytes, pos⟩ = some (.done r, f) →
      f.bytes = bytes := by
    intro hmixed pos r f hf
    obtain ⟨body, hempty, -, hrun⟩ := putBlock_inside h (hkeeps.offset (.inl hmixed))
    obtain ⟨pos', hstart⟩ := hrun pos
    rw [hf, hempty hmixed, List.append_nil, writeAt_of_holdsAt (hkeeps.rejected hmixed)] at hstart
    cases hstart
    rfl
  -- an accepted block that fits leaves this and every other block readable
  have hreadable : ¬ block.info.Mixed → block.info.Fits info → ∀ pos r f,
      (Device.writeBlock info block).run? fileHandler ⟨bytes, pos⟩ = some (.done r, f) →
      Readable info f.bytes block.info.blockId ∧
        ∀ k < 2 ^ 16, k ≠ block.info.blockId → Readable info bytes k → Readable info f.bytes k := by
    intro hmixed hfits pos r f hf
    have hoffset := hkeeps.offset (.inr hfits)
    obtain ⟨body, -, hbody, hrun⟩ := putBlock_inside h hoffset
    obtain ⟨pos', hstart⟩ := hrun pos
    rw [hf] at hstart
    cases hstart
    exact ⟨(readable_written_iff hsize h hmixed hfits hoffset (hbody hmixed)).mpr
        (hkeeps.accepted hmixed hfits),
      fun k hk hne hread =>
        readable_beside hsize h hmixed hfits hoffset (hbody hmixed) hk hne hread⟩
  refine ⟨fun hmixed pos f => hunchanged hmixed pos _ f, ?_, ?_⟩
  · intro hmixed hfits pos f hf
    obtain ⟨hself, -⟩ := hreadable hmixed hfits pos .stored f hf
    exact hself
  · intro hcase pos r f hf k hk hread
    by_cases hmixed : block.info.Mixed
    · rwa [hunchanged hmixed pos r f hf]
    obtain ⟨hself, hbeside⟩ := hreadable hmixed (hcase.resolve_left hmixed) pos r f hf
    by_cases heq : k = block.info.blockId
    · rwa [heq]
    · exact hbeside k hk heq hread

end Safety

/-- **A write is safe** exactly if it keeps the image. -/
theorem writesSafely_iff (info : FsInfo) (block : Block) (bytes : List UInt8)
    (hsize : info.blockSize < 2 ^ 16) (h : block.Valid info) :
    WritesSafely info block bytes ↔ KeepsImage info block bytes :=
  ⟨fun hsafe => hsafe.keepsImage hsize h, fun hkeeps => hkeeps.writesSafely hsize h⟩

/-- The default geometry, with one of everything. -/
def oneBlock : FsInfo := { defaultFsInfo with
  inodesCount := 1
  blocksCount := 1
  blocksCountInInode := 1
  descriptorsCount := 1 }

/-- The block of its root directory, whose header also counts data. -/
def rootBlock (dataSize : Nat) : Block where
  info := { blockId := 0, inodeId := 0, recordsCount := 2, dataSize := dataSize }
  records := some [⟨0, nameField oneBlock [46]⟩, ⟨0, nameField oneBlock [46, 46]⟩]
  data := List.replicate (maxSizeOfData oneBlock) 0

/-- Its image: the root directory is all there is. -/
def rootImage : List UInt8 :=
  encodeSuperblock ⟨oneBlock, [true], [true]⟩ ++ encodeTable (initDescriptorsTable oneBlock) ++
    encodeInode ⟨0, 1, false, [0]⟩ ++ encodeBlock oneBlock (rootBlock 0)

/-- The root directory can be written once more. -/
theorem writesSafely_root : WritesSafely oneBlock (rootBlock 0) rootImage := by
  have hbuffers : BlockWritable oneBlock (rootBlock 0) := by
    right
    show RecordsWritable oneBlock 2 _
    unfold RecordsWritable
    decide
  have hmixed : ¬ (rootBlock 0).info.Mixed := by decide
  refine (writesSafely_iff _ _ _ (by decide) ⟨by decide, by decide, by decide, by decide,
    hbuffers⟩).mpr ⟨fun _ => by decide, fun h => absurd h hmixed, fun _ _ => .inl ?_⟩
  exact ⟨fun _ => Option.some_ne_none _, fun h => absurd rfl h⟩

/-- Not every write is safe: the header of a mixed block stays in the image. -/
theorem not_writesSafely : ¬ ∀ (info : FsInfo) (block : Block) (bytes : List UInt8),
    info.blockSize < 2 ^ 16 → block.Valid info → WritesSafely info block bytes := by
  intro hsafe
  have hmixed : (rootBlock 5).info.Mixed := by decide
  have hvalid : (rootBlock 5).Valid oneBlock :=
    ⟨by decide, by decide, by decide, by decide, .inl hmixed⟩
  have hkeeps := (hsafe oneBlock (rootBlock 5) rootImage (by decide) hvalid).keepsImage
    (by decide) hvalid
  have hheader := hkeeps.rejected hmixed
  revert hheader
  decide

end MiniExt
