import BlindSig.Hart
import BlindSig.Picorv32Bus

set_option autoImplicit false

namespace BlindSig.Picorv32

open Clocked ByteLanes Soc Rv32i

/-- The RAM as its bytes. -/
def bytesOf (ram : BitVec 12 → Word) : Bytes 14 :=
  fun b => lane (ram (b.extractLsb' 2 12)) (b.toNat % 4)

/-- `mem_wordsize` of an access. -/
def wordsize : Size → Wordsize
  | .byte => .byte
  | .half => .half
  | .word => .word

variable {c : Core} {size : Size} {ram : BitVec 12 → Word} {a : BitVec 32}

theorem toNat_wordAddr (a : BitVec 32) : (wordAddr a).toNat = a.toNat / 4 * 4 := by
  rw [wordAddr, BitVec.toNat_append, Nat.shiftLeft_eq, BitVec.extractLsb'_toNat,
    Nat.shiftRight_eq_div_pow]
  have := a.isLt
  simp only [BitVec.toNat_ofNat, Nat.zero_mod, Nat.or_zero]
  omega

/-- The word address of an access selects its region and its word in the RAM. -/
theorem wordAddr_fields (a : BitVec 32) : (wordAddr a).extractLsb' 28 4 = a.extractLsb' 28 4 ∧
    (wordAddr a).extractLsb' 2 12 = a.extractLsb' 2 12 := by
  constructor <;> apply BitVec.eq_of_toNat_eq <;>
    rw [BitVec.extractLsb'_toNat, BitVec.extractLsb'_toNat, toNat_wordAddr,
      Nat.shiftRight_eq_div_pow, Nat.shiftRight_eq_div_pow] <;> omega

theorem toNat_ramAddr (a : BitVec 32) : (Hart.ramAddr a).toNat = a.toNat % 16384 := by
  rw [Hart.ramAddr, BitVec.extractLsb'_toNat]
  simp

/-- A byte of an aligned access is in its word. -/
theorem bytesOf_add {k : ℕ} (inside : a.toNat % 4 + k < 4) :
    bytesOf ram (Hart.ramAddr a + BitVec.ofNat 14 k) =
      lane (ram (a.extractLsb' 2 12)) (a.toNat % 4 + k) := by
  have here : (Hart.ramAddr a + BitVec.ofNat 14 k).toNat = a.toNat % 16384 + k := by
    rw [BitVec.toNat_add, toNat_ramAddr, BitVec.toNat_ofNat]
    omega
  have word : (Hart.ramAddr a + BitVec.ofNat 14 k).extractLsb' 2 12 = a.extractLsb' 2 12 := by
    apply BitVec.eq_of_toNat_eq
    rw [BitVec.extractLsb'_toNat, BitVec.extractLsb'_toNat, here, Nat.shiftRight_eq_div_pow,
      Nat.shiftRight_eq_div_pow]
    omega
  rw [bytesOf, word, here]
  congr 1
  omega

/-- The lowest byte of an aligned access and its bytes fit into the word. -/
theorem aligned_fits (aligned : size.aligned a) : a.toNat % 4 + size.bytes ≤ 4 := by
  have := aligned
  unfold Size.aligned at this
  cases size <;> simp only [Size.bytes] at * <;> omega

theorem getLsbD_load (aligned : size.aligned a) {k : ℕ} (inside : k < 32) :
    ((bytesOf ram).load size (Hart.ramAddr a)).getLsbD k =
      (decide (k < 8 * size.bytes) && (ram (a.extractLsb' 2 12)).getLsbD (8 * (a.toNat % 4) + k)) := by
  have fits := aligned_fits aligned
  rw [Bytes.getLsbD_load _ _ _ inside]
  by_cases covered : k < 8 * size.bytes
  · rw [decide_eq_true covered, bytesOf_add (by omega), getLsbD_lane _ _ (by omega)]
    congr 2
    omega
  · rw [decide_eq_false covered, Bool.false_and, Bool.false_and]

theorem getLsbD_fromWord (w : Word) {k : ℕ} (inside : k < 32) :
    (Hart.fromWord size a w).getLsbD k =
      (decide (k < 8 * size.bytes) && w.getLsbD (8 * (a.toNat % 4) + k)) := by
  simp [Hart.fromWord, inside]

theorem getLsbD_memRdataWord (sized : c.memWordsize = wordsize size)
    (aligned : size.aligned c.regOp1) (w : Word) {k : ℕ} (inside : k < 32) :
    (c.memRdataWord w).getLsbD k =
      (decide (k < 8 * size.bytes) && w.getLsbD (8 * (c.regOp1.toNat % 4) + k)) := by
  have offset : (c.regOp1.extractLsb' 0 2).toNat = c.regOp1.toNat % 4 := by
    rw [BitVec.extractLsb'_toNat]
    simp
  unfold Core.memRdataWord
  rw [sized]
  unfold Size.aligned at aligned
  cases size with
  | byte =>
      simp only [wordsize, Size.bytes, BitVec.getLsbD_setWidth, BitVec.getLsbD_extractLsb', offset, inside]
      simp
  | half =>
      have high : c.regOp1.getLsbD 1 = decide (c.regOp1.toNat % 4 = 2) := by
        rw [BitVec.getLsbD, Nat.testBit_succ, Nat.testBit_zero]
        simp only [Size.bytes] at aligned
        rw [decide_eq_decide]
        omega
      simp only [wordsize, Size.bytes] at aligned ⊢
      rw [high]
      change _ = (decide (k < 16) && _)
      by_cases upper : c.regOp1.toNat % 4 = 2
      · simp [upper, inside]
      · have lower : c.regOp1.toNat % 4 = 0 := by omega
        simp [lower, inside]
  | word =>
      simp only [wordsize, Size.bytes] at aligned ⊢
      simp [aligned, inside]

/-- A load from the RAM gets the bytes at its address. -/
theorem memRdataWord_load (sized : c.memWordsize = wordsize size) (aligned : size.aligned c.regOp1) :
    c.memRdataWord (ram (c.regOp1.extractLsb' 2 12)) =
      (bytesOf ram).load size (Hart.ramAddr c.regOp1) := by
  apply BitVec.eq_of_getLsbD_eq
  intro k inside
  rw [getLsbD_memRdataWord sized aligned _ inside, getLsbD_load aligned inside]

/-- A load from a device gets its part of the word. -/
theorem memRdataWord_fromWord (sized : c.memWordsize = wordsize size)
    (aligned : size.aligned c.regOp1) (w : Word) :
    c.memRdataWord w = Hart.fromWord size c.regOp1 w := by
  apply BitVec.eq_of_getLsbD_eq
  intro k inside
  rw [getLsbD_memRdataWord sized aligned _ inside, getLsbD_fromWord w inside]

/-- A fetch gets the word at its address. -/
theorem fetch_word (aligned : Size.word.aligned a) :
    (bytesOf ram).word (Hart.ramAddr a) = ram (a.extractLsb' 2 12) := by
  apply BitVec.eq_of_getLsbD_eq
  intro k inside
  have here : ((bytesOf ram).load .word _).getLsbD k = _ := getLsbD_load aligned inside
  unfold Size.aligned Size.bytes at aligned
  have whole : (bytesOf ram).load .word (Hart.ramAddr a) = (bytesOf ram).word (Hart.ramAddr a) := by
    simp [Bytes.load, Size.bytes]
  rw [← whole, here, aligned]
  simp [Size.bytes, inside]

/-- All lanes of the interface carry the stored bytes. -/
theorem memLaWdata_toWord (sized : c.memWordsize = wordsize size) :
    c.memLaWdata = Hart.toWord size c.regOp2 := by
  unfold Core.memLaWdata
  rw [sized]
  cases size <;> rfl

theorem lane_toWord (size : Size) (data : Word) {j : ℕ} (inside : j < 4) :
    lane (Hart.toWord size data) j = data.extractLsb' (8 * (j % size.bytes)) 8 := by
  have cases : j = 0 ∨ j = 1 ∨ j = 2 ∨ j = 3 := by omega
  apply BitVec.eq_of_getLsbD_eq
  intro k within
  rw [getLsbD_lane _ _ within, BitVec.getLsbD_extractLsb']
  cases size with
  | word => simp [Hart.toWord, Size.bytes, Nat.mod_eq_of_lt inside, within]
  | half =>
      simp only [Hart.toWord, Size.bytes, BitVec.getLsbD_append, BitVec.getLsbD_setWidth]
      rcases cases with rfl | rfl | rfl | rfl
      · simp [show k < 16 by omega, within]
      · simp [show 8 + k < 16 by omega, within]
      · simp [show ¬16 + k < 16 by omega, show k < 16 by omega, within]
      · simp [show ¬24 + k < 16 by omega, show 24 + k - 16 = 8 + k by omega,
          show 8 + k < 16 by omega, within]
  | byte =>
      simp only [Hart.toWord, Size.bytes, BitVec.getLsbD_append, BitVec.getLsbD_setWidth]
      rcases cases with rfl | rfl | rfl | rfl
      · simp [within]
      · simp [show ¬8 + k < 8 by omega, within]
      · simp [show ¬16 + k < 8 by omega, show 16 + k - 8 = 8 + k by omega,
          show ¬8 + k < 8 by omega, within]
      · simp [show ¬24 + k < 8 by omega, show 24 + k - 8 = 16 + k by omega,
          show ¬16 + k < 8 by omega, show 16 + k - 8 = 8 + k by omega,
          show ¬8 + k < 8 by omega, within]

/-- The strobes are those of the lanes the access covers. -/
theorem memLaWstrb_covers (sized : c.memWordsize = wordsize size) {j : ℕ} (inside : j < 4) :
    c.memLaWstrb.getLsbD j = decide (j / size.bytes = c.regOp1.toNat % 4 / size.bytes) := by
  have bit : c.regOp1.getLsbD 1 = (c.regOp1.extractLsb' 0 2).getLsbD 1 := by
    simp
  have value : c.regOp1.toNat % 4 = (c.regOp1.extractLsb' 0 2).toNat := by
    rw [BitVec.extractLsb'_toNat]
    simp
  have half : ∀ v : BitVec 2, ∀ j < 4,
      (if v.getLsbD 1 then 0b1100 else 0b0011 : BitVec 4).getLsbD j = decide (j / 2 = v.toNat / 2) := by
    decide
  have byte : ∀ v : BitVec 2, ∀ j < 4,
      (0b0001#4 <<< v).getLsbD j = decide (j / 1 = v.toNat / 1) := by decide
  have word : ∀ v : BitVec 2, ∀ j < 4,
      (0b1111 : BitVec 4).getLsbD j = decide (j / 4 = v.toNat / 4) := by decide
  unfold Core.memLaWstrb
  rw [sized, value]
  cases size with
  | byte => exact byte _ j inside
  | half =>
      simp only [wordsize, bit]
      exact half _ j inside
  | word => exact word _ j inside

theorem memLaWstrb_write (sized : c.memWordsize = wordsize size) : c.memLaWstrb ≠ 0 := by
  intro none
  have offset : c.regOp1.toNat % 4 < 4 := Nat.mod_lt _ (by decide)
  have covered := memLaWstrb_covers sized offset
  rw [none] at covered
  simp at covered

/-- A store to the RAM sets the bytes at its address. -/
theorem stored_store (sized : c.memWordsize = wordsize size) (aligned : size.aligned c.regOp1)
    (inRam : Hart.inRam c.regOp1) :
    bytesOf (stored ram ⟨wordAddr c.regOp1, c.memLaWdata, c.memLaWstrb⟩) =
      (bytesOf ram).store size (Hart.ramAddr c.regOp1) c.regOp2 := by
  obtain ⟨region, index⟩ := wordAddr_fields c.regOp1
  have selected : (⟨wordAddr c.regOp1, c.memLaWdata, c.memLaWstrb⟩ : Transaction).selRam = true :=
    beq_iff_eq.mpr (region.trans inRam)
  have fits := aligned_fits aligned
  funext b
  have offset : (b - Hart.ramAddr c.regOp1).toNat =
      (16384 - c.regOp1.toNat % 16384 + b.toNat) % 16384 := by
    rw [BitVec.toNat_sub, toNat_ramAddr]
  have small := b.isLt
  have same : b.extractLsb' 2 12 = c.regOp1.extractLsb' 2 12 ↔
      b.toNat / 4 = c.regOp1.toNat % 16384 / 4 := by
    rw [← BitVec.toNat_inj, BitVec.extractLsb'_toNat, BitVec.extractLsb'_toNat,
      Nat.shiftRight_eq_div_pow, Nat.shiftRight_eq_div_pow]
    omega
  rw [stored, if_pos selected, bytesOf, Bytes.store, offset]
  simp only [Transaction.ramWordAddr, index, same]
  unfold Size.aligned at aligned
  by_cases here : b.toNat / 4 = c.regOp1.toNat % 16384 / 4
  · rw [if_pos here, lane_writeBytes _ _ (Nat.mod_lt _ (by decide)),
      memLaWstrb_covers sized (Nat.mod_lt _ (by decide)), memLaWdata_toWord sized,
      lane_toWord _ _ (Nat.mod_lt _ (by decide))]
    by_cases covered : b.toNat % 4 / size.bytes = c.regOp1.toNat % 4 / size.bytes
    · have distance : (16384 - c.regOp1.toNat % 16384 + b.toNat) % 16384 =
          b.toNat % 4 % size.bytes := by
        cases size <;> simp only [Size.bytes] at aligned covered ⊢ <;> omega
      have positive : 0 < size.bytes := by cases size <;> decide
      rw [distance, if_pos (decide_eq_true covered), if_pos (Nat.mod_lt _ positive)]
    · rw [if_neg (by simpa using covered), if_neg]
      · rfl
      · cases size <;> simp only [Size.bytes] at aligned covered ⊢ <;> omega
  · rw [if_neg here, if_neg]
    · rfl
    · cases size <;> simp only [Size.bytes] at aligned ⊢ <;> omega

end BlindSig.Picorv32
