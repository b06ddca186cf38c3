import Mathlib.Tactic.Ring
import Mathlib.Tactic.Linarith

set_option autoImplicit false

namespace BitSerial

variable {w : ℕ} {α : Type*}

/-- One multiplexed subtraction, no division. -/
def condSub (m v : ℕ) : ℕ := if m ≤ v then v - m else v

theorem condSub_eq_mod {m v : ℕ} (bound : v < 2 * m) : condSub m v = v % m := by
  unfold condSub
  split
  · rename_i above
    rw [Nat.mod_eq_sub_mod above, Nat.mod_eq_of_lt (by omega)]
  · rename_i below
    exact (Nat.mod_eq_of_lt (Nat.lt_of_not_le below)).symm

@[simp] theorem condSub_zero (v : ℕ) : condSub 0 v = v := by
  simp [condSub]

/-- The fixed-width subtractor and comparator compute it without a borrow. -/
theorem toNat_condSub (m v : BitVec w) :
    (if m ≤ v then v - m else v).toNat = condSub m.toNat v.toNat := by
  unfold condSub
  split
  · rename_i above
    rw [if_pos (BitVec.le_def.mp above), BitVec.toNat_sub_of_le above]
  · rename_i below
    rw [if_neg (fun above => below (BitVec.le_def.mpr above))]

/-- The number spelled by the first `n` bits a left-shifting register offers. -/
def top (b : BitVec w) (n : ℕ) : ℕ := b.toNat / 2 ^ (w - n)

@[simp] theorem top_zero (b : BitVec w) : top b 0 = 0 :=
  Nat.div_eq_of_lt (by simpa using b.isLt)

@[simp] theorem top_full (b : BitVec w) : top b w = b.toNat := by
  simp [top]

/-- The top bit of a register has the weight of a full shift. -/
theorem toNat_eq_msb_add (b : BitVec (w + 1)) :
    b.toNat = b.msb.toNat * 2 ^ w + (b <<< 1).toNat / 2 := by
  have bound := b.isLt
  rw [Nat.pow_succ] at bound
  simp only [BitVec.toNat_shiftLeft, Nat.shiftLeft_eq, Nat.pow_succ,
    BitVec.msb_eq_decide, Nat.add_sub_cancel]
  by_cases high : 2 ^ w ≤ b.toNat
  · have wrapped : b.toNat * 2 % (2 ^ w * 2) = (b.toNat - 2 ^ w) * 2 := by
      rw [Nat.mul_mod_mul_right, Nat.mod_eq_sub_mod high, Nat.mod_eq_of_lt (by omega)]
    simp only [high, decide_true, Bool.toNat_true, wrapped]
    omega
  · have kept : b.toNat * 2 % (2 ^ w * 2) = b.toNat * 2 := Nat.mod_eq_of_lt (by omega)
    simp only [high, decide_false, Bool.toNat_false, kept]
    omega

theorem top_succ (b : BitVec w) {n : ℕ} (inside : n < w) :
    top b (n + 1) = b.msb.toNat * 2 ^ n + top (b <<< 1) n := by
  obtain ⟨rest, rfl⟩ : ∃ rest, w = n + rest + 1 := ⟨w - n - 1, by omega⟩
  have value := toNat_eq_msb_add b
  have short : n + rest + 1 - (n + 1) = rest := by omega
  have long : n + rest + 1 - n = rest + 1 := by omega
  have halves : (b <<< 1).toNat / 2 ^ (rest + 1) = (b <<< 1).toNat / 2 / 2 ^ rest := by
    rw [Nat.pow_succ, Nat.mul_comm, Nat.div_div_eq_div_mul]
  simp only [top, short, long, halves]
  rw [value, Nat.pow_add, ← Nat.mul_assoc, Nat.add_comm,
    Nat.add_mul_div_right _ _ (Nat.two_pow_pos rest), Nat.add_comm]

/-- `n` rounds of a recurrence that consumes the register's top bit and shifts. -/
def serial (round : Bool → α → α) : ℕ → BitVec w → α → α
  | 0, _, acc => acc
  | n + 1, b, acc => serial round n (b <<< 1) (round b.msb acc)

/-- Rounds that double, add `a` for a set bit and reduce compute a product. The
invariant is that the accumulator stays below the modulus. -/
theorem serial_horner (round : Bool → α → α) (value : α → ℕ) {m a : ℕ} (positive : 0 < m)
    (rounds : ∀ bit acc, value acc < m →
      value (round bit acc) = (2 * value acc + bit.toNat * a) % m)
    {n : ℕ} (fits : n ≤ w) (b : BitVec w) (acc : α) (reduced : value acc < m) :
    value (serial round n b acc) = (value acc * 2 ^ n + a * top b n) % m := by
  induction n generalizing b acc with
  | zero => simp [serial, Nat.mod_eq_of_lt reduced]
  | succ n ih =>
      have next := rounds b.msb acc reduced
      have below : value (round b.msb acc) < m := next ▸ Nat.mod_lt _ positive
      rw [serial, ih (by omega) _ _ below, next, top_succ b (by omega)]
      rw [Nat.add_mod, Nat.mod_mul_mod, ← Nat.add_mod]
      congr 1
      ring

end BitSerial
