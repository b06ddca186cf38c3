import Mathlib.Data.List.GetD
import BlindSig.ByteLanes
import BlindSig.HexText

set_option autoImplicit false

/- makehex.py and the initial RAM contents that `$readmemh` makes of its output. -/
namespace BlindSig.Firmware

open ByteLanes

abbrev Byte := BitVec 8

/-- `data[k]`, which the script reads within the bounds only. -/
def byteAt (data : List Byte) (k : ℕ) : ℕ := (data.getD k 0).toNat

/-- Word `i` of the image. The last word may be partial, and words beyond the
data are zero. -/
def imageWord (data : List Byte) (i : ℕ) : ℕ :=
  let off := i * 4
  if off + 4 ≤ data.length then
    byteAt data off ||| byteAt data (off + 1) <<< 8 ||| byteAt data (off + 2) <<< 16 |||
      byteAt data (off + 3) <<< 24
  else if off < data.length then
    (List.range (data.length - off)).foldl (fun w j => w ||| byteAt data (off + j) <<< (8 * j)) 0
  else 0

/-- What the script prints: a line `%08x` for each word. -/
def makehex (data : List Byte) (nwords : ℕ) : List Char :=
  HexText.print 8 ((List.range nwords).map (imageWord data))

/-- `$readmemh` into words of `width` bits, line `i` into word `i`. A line that is
no plain number (an address, an x or z digit) is not read. -/
def readmemh (width : ℕ) (text : List Char) : Option (List (BitVec width)) :=
  (HexText.parseAll text).map fun values => values.map (BitVec.ofNat width)

variable {data : List Byte}

theorem byteAt_beyond {k : ℕ} (beyond : data.length ≤ k) : byteAt data k = 0 := by
  rw [byteAt, List.getD_eq_default _ _ beyond]
  rfl

/-- All three branches are the little-endian word over data padded with zeros. -/
theorem imageWord_eq (data : List Byte) (i : ℕ) : imageWord data i =
    byteAt data (i * 4) ||| byteAt data (i * 4 + 1) <<< 8 ||| byteAt data (i * 4 + 2) <<< 16 |||
      byteAt data (i * 4 + 3) <<< 24 := by
  unfold imageWord
  dsimp only
  split
  · rfl
  · rename_i short
    split
    · rename_i partly
      have count : data.length - i * 4 = 1 ∨ data.length - i * 4 = 2 ∨ data.length - i * 4 = 3 := by
        omega
      rcases count with one | two | three
      · rw [one, byteAt_beyond (k := i * 4 + 1) (by omega), byteAt_beyond (k := i * 4 + 2) (by omega),
          byteAt_beyond (k := i * 4 + 3) (by omega)]
        simp
      · rw [two, byteAt_beyond (k := i * 4 + 2) (by omega), byteAt_beyond (k := i * 4 + 3) (by omega)]
        simp [List.range_succ]
      · rw [three, byteAt_beyond (k := i * 4 + 3) (by omega)]
        simp [List.range_succ]
    · rw [byteAt_beyond (k := i * 4) (by omega), byteAt_beyond (k := i * 4 + 1) (by omega),
        byteAt_beyond (k := i * 4 + 2) (by omega), byteAt_beyond (k := i * 4 + 3) (by omega)]
      rfl

/-- A byte shifted into lane `l` is there and in no other lane. -/
theorem testBit_byteAt (data : List Byte) (k l : ℕ) {j b : ℕ} (inside : b < 8) :
    (byteAt data k <<< (8 * l)).testBit (8 * j + b) =
      (decide (j = l) && (data.getD k 0).getLsbD b) := by
  rw [Nat.testBit_shiftLeft]
  rcases Nat.lt_trichotomy j l with below | same | above
  · simp [Nat.ne_of_lt below, show ¬8 * l ≤ 8 * j + b by omega]
  · subst same
    simp [byteAt, BitVec.testBit_toNat]
  · have beyond : (data.getD k 0).getLsbD (8 * j + b - 8 * l) = false :=
      BitVec.getLsbD_of_ge _ _ (by omega)
    rw [byteAt, BitVec.testBit_toNat, beyond, Bool.and_false]
    simp [Nat.ne_of_gt above]

/-- Lane `j` of word `i` holds byte `4 * i + j`. -/
theorem lane_imageWord (data : List Byte) (i : ℕ) {j : ℕ} (inside : j < 4) :
    lane (BitVec.ofNat 32 (imageWord data i)) j = data.getD (i * 4 + j) 0 := by
  apply BitVec.eq_of_getLsbD_eq
  intro b low
  rw [getLsbD_lane _ _ low, BitVec.getLsbD_ofNat, imageWord_eq, Nat.testBit_or, Nat.testBit_or,
    Nat.testBit_or]
  have first := testBit_byteAt data (i * 4) 0 (j := j) low
  have second := testBit_byteAt data (i * 4 + 1) 1 (j := j) low
  have third := testBit_byteAt data (i * 4 + 2) 2 (j := j) low
  have fourth := testBit_byteAt data (i * 4 + 3) 3 (j := j) low
  rw [Nat.mul_zero, Nat.shiftLeft_zero] at first
  rw [first, second, third, fourth]
  match j with
  | 0 => simp; omega
  | 1 => simp; omega
  | 2 => simp; omega
  | 3 => simp; omega

/-- Byte address `k` of the RAM. -/
def ramByte (ram : List (BitVec 32)) (k : ℕ) : Byte := lane (ram.getD (k / 4) 0) (k % 4)

/-- The image that reaches the RAM is the data, padded with zeros. -/
theorem image_survives (data : List Byte) (nwords : ℕ) (fits : data.length ≤ 4 * nwords) :
    ∃ ram, readmemh 32 (makehex data nwords) = some ram ∧ ram.length = nwords ∧
      (∀ k, (inside : k < data.length) → ramByte ram k = data.get ⟨k, inside⟩) ∧
      ∀ k, data.length ≤ k → k < 4 * nwords → ramByte ram k = 0 := by
  have reads : readmemh 32 (makehex data nwords) =
      some ((List.range nwords).map fun i => BitVec.ofNat 32 (imageWord data i)) := by
    rw [readmemh, makehex, HexText.parseAll_print]
    simp
  have bytes : ∀ k < 4 * nwords, ramByte ((List.range nwords).map fun i =>
      BitVec.ofNat 32 (imageWord data i)) k = data.getD k 0 := by
    intro k inside
    have index : k / 4 < nwords := by omega
    have address : k / 4 * 4 + k % 4 = k := by omega
    rw [ramByte, List.getD_eq_getElem _ _ (by simpa using index), List.getElem_map,
      List.getElem_range, lane_imageWord data _ (Nat.mod_lt k (by decide)), address]
  refine ⟨_, reads, by simp, fun k inside => ?_, fun k beyond inside => ?_⟩
  · rw [bytes k (by omega), List.getD_eq_getElem _ _ inside]
    rfl
  · rw [bytes k inside, List.getD_eq_default _ _ beyond]

/-- Six bytes in a RAM of three words. -/
theorem image_survives_six : ∃ ram, readmemh 32 (makehex [1, 2, 3, 4, 0xAB, 0xCD] 3) = some ram ∧
    ramByte ram 5 = 0xCD ∧ ramByte ram 6 = 0 := by
  obtain ⟨ram, reads, -, bytes, zeros⟩ := image_survives [1, 2, 3, 4, 0xAB, 0xCD] 3 (by decide)
  exact ⟨ram, reads, bytes 5 (by decide), zeros 6 (by decide) (by decide)⟩

example : makehex [1, 2, 3, 4, 0xAB] 2 = "04030201\n000000ab\n".toList := by decide

end BlindSig.Firmware
