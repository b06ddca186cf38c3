import Mathlib.Tactic.TypeStar
import Mathlib.Tactic.Common

set_option autoImplicit false

namespace ByteLanes

variable {w : ℕ}

/-- Byte lane `j`: the bits from `8 * j` to `8 * j + 7`. -/
def lane (word : BitVec w) (j : ℕ) : BitVec 8 := word.extractLsb' (8 * j) 8

theorem getLsbD_lane (word : BitVec w) (j : ℕ) {b : ℕ} (inside : b < 8) :
    (lane word j).getLsbD b = word.getLsbD (8 * j + b) := by
  simp [lane, inside]

/-- The word with another byte in lane `j`. -/
def setLane (word : BitVec w) (j : ℕ) (byte : BitVec 8) : BitVec w :=
  (word &&& ~~~((BitVec.allOnes 8).setWidth w <<< (8 * j))) ||| (byte.setWidth w <<< (8 * j))

theorem getLsbD_setLane (word : BitVec w) (j : ℕ) (byte : BitVec 8) {k : ℕ} (inside : k < w) :
    (setLane word j byte).getLsbD k =
      if 8 * j ≤ k ∧ k < 8 * j + 8 then byte.getLsbD (k - 8 * j) else word.getLsbD k := by
  have fits : k - 8 * j < w := by omega
  simp only [setLane, BitVec.getLsbD_or, BitVec.getLsbD_and, BitVec.getLsbD_not,
    BitVec.getLsbD_shiftLeft, BitVec.getLsbD_setWidth, BitVec.getLsbD_allOnes, inside, fits,
    decide_true, Bool.true_and]
  by_cases below : k < 8 * j
  · simp [below, Nat.not_le_of_lt below]
  · by_cases above : k < 8 * j + 8
    · have within : k - 8 * j < 8 := by omega
      simp [below, above, within, Nat.le_of_not_lt below]
    · have beyond : ¬k - 8 * j < 8 := by omega
      simp [below, above, beyond, BitVec.getLsbD_of_ge byte (k - 8 * j) (by omega)]

/-- A lane shows the byte written to it and no other one. -/
theorem lane_setLane (word : BitVec w) (byte : BitVec 8) {i j : ℕ} (fits : 8 * i + 8 ≤ w) :
    lane (setLane word j byte) i = if i = j then byte else lane word i := by
  apply BitVec.eq_of_getLsbD_eq
  intro b inside
  rw [getLsbD_lane _ _ inside, getLsbD_setLane _ _ _ (by omega)]
  by_cases same : i = j
  · subst same
    rw [if_pos ⟨by omega, by omega⟩, if_pos rfl, Nat.add_sub_cancel_left]
  · rw [if_neg (by omega), if_neg same, getLsbD_lane _ _ inside]

/-- Lanes written one after the other, each at most with its own byte. -/
theorem lane_foldl_setLane (enable : ℕ → Bool) (bytes : ℕ → BitVec 8) {i : ℕ} (fits : 8 * i + 8 ≤ w)
    (lanes : List ℕ) (word : BitVec w) :
    lane (lanes.foldl (fun word j => if enable j then setLane word j (bytes j) else word) word) i =
      if i ∈ lanes ∧ enable i = true then bytes i else lane word i := by
  induction lanes generalizing word with
  | nil => simp
  | cons j rest ih =>
      rw [List.foldl_cons, ih]
      by_cases later : i ∈ rest ∧ enable i = true
      · rw [if_pos later, if_pos ⟨List.mem_cons_of_mem j later.1, later.2⟩]
      · rw [if_neg later]
        by_cases same : i = j
        · subst same
          cases enabled : enable i with
          | false => simp
          | true => simp [lane_setLane word (bytes i) fits]
        · have elsewhere : ¬(i ∈ j :: rest ∧ enable i = true) := by
            simpa [same] using later
          rw [if_neg elsewhere]
          cases enable j with
          | false => rfl
          | true => simp [lane_setLane word (bytes j) fits, same]

end ByteLanes
