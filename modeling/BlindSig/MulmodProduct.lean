import BlindSig.Mulmod

set_option autoImplicit false

namespace BlindSig.Mulmod

open Clocked BitSerial

variable {width : ℕ}

@[simp] theorem mExt_toNat (mReg : BitVec width) : (mExt mReg).toNat = mReg.toNat :=
  BitVec.toNat_setWidth_of_le (Nat.le_succ width)

/-- A reduced accumulator has a clear top bit, so the doubling loses nothing. -/
theorem dbl_toNat (acc : BitVec (width + 1)) (room : acc.toNat < 2 ^ width) :
    (dbl acc).toNat = 2 * acc.toNat := by
  simp only [dbl, BitVec.toNat_concat, BitVec.toNat_setWidth, Nat.mod_eq_of_lt room,
    Bool.toNat_false]
  omega

theorem red1_toNat (mReg : BitVec width) (acc : BitVec (width + 1))
    (reduced : acc.toNat < mReg.toNat) :
    (red1 mReg acc).toNat = 2 * acc.toNat % mReg.toNat := by
  have room : acc.toNat < 2 ^ width := Nat.lt_trans reduced mReg.isLt
  rw [red1, dblSub, toNat_condSub, mExt_toNat, dbl_toNat acc room]
  exact condSub_eq_mod (by omega)

theorem red1_lt (mReg : BitVec width) (acc : BitVec (width + 1))
    (reduced : acc.toNat < mReg.toNat) : (red1 mReg acc).toNat < mReg.toNat := by
  rw [red1_toNat mReg acc reduced]
  exact Nat.mod_lt _ (Nat.zero_lt_of_lt reduced)

/-- The sum of two reduced values fits the extra bit of headroom. -/
theorem add_toNat (aReg mReg : BitVec width) (acc : BitVec (width + 1))
    (within : aReg.toNat < mReg.toNat) (reduced : acc.toNat < mReg.toNat) :
    (add aReg mReg acc).toNat = (red1 mReg acc).toNat + aReg.toNat := by
  have bound := mReg.isLt
  have low := red1_lt mReg acc reduced
  rw [add, BitVec.toNat_add, BitVec.toNat_setWidth_of_le (Nat.le_succ width)]
  apply Nat.mod_eq_of_lt
  rw [Nat.pow_succ]
  omega

theorem red2_toNat (aReg mReg : BitVec width) (acc : BitVec (width + 1))
    (within : aReg.toNat < mReg.toNat) (reduced : acc.toNat < mReg.toNat) :
    (red2 aReg mReg acc).toNat = (2 * acc.toNat + aReg.toNat) % mReg.toNat := by
  have low := red1_lt mReg acc reduced
  rw [red2, addSub, toNat_condSub, mExt_toNat, add_toNat aReg mReg acc within reduced,
    condSub_eq_mod (by omega), red1_toNat mReg acc reduced, Nat.mod_add_mod]

/-- One step of the recurrence in the header of the source. -/
theorem step_toNat (aReg mReg : BitVec width) (bit : Bool) (acc : BitVec (width + 1))
    (within : aReg.toNat < mReg.toNat) (reduced : acc.toNat < mReg.toNat) :
    (step aReg mReg bit acc).toNat =
      (2 * acc.toNat + bit.toNat * aReg.toNat) % mReg.toNat := by
  cases bit with
  | false => simpa [step] using red1_toNat mReg acc reduced
  | true => simpa [step] using red2_toNat aReg mReg acc within reduced

/-- The multiplier `b` need not be reduced. -/
theorem value_toNat (a b m : BitVec width) (within : a.toNat < m.toNat) :
    (value a b m).toNat = a.toNat * b.toNat % m.toNat := by
  have positive : 0 < m.toNat := Nat.zero_lt_of_lt within
  have total : (serial (step a m) width b 0).toNat = a.toNat * b.toNat % m.toNat := by
    have horner := serial_horner (step a m) BitVec.toNat positive
      (fun bit acc reduced => step_toNat a m bit acc within reduced) (Nat.le_refl width) b
      (0 : BitVec (width + 1)) (by simpa using positive)
    simpa using horner
  have bound : a.toNat * b.toNat % m.toNat < 2 ^ width :=
    Nat.lt_trans (Nat.mod_lt _ positive) m.isLt
  change ((serial (step a m) width b 0).setWidth width).toNat = _
  rw [BitVec.toNat_setWidth, total, Nat.mod_eq_of_lt bound]

/-- Over a zero modulus, out of its precondition, the unit multiplies modulo the
word size: subtracting zero reduces nothing. -/
theorem step_zero_modulus (a : BitVec width) (bit : Bool) (acc : BitVec (width + 1)) :
    (step a (BitVec.ofNat width 0) bit acc).toNat % 2 ^ width =
      (2 * (acc.toNat % 2 ^ width) + bit.toNat * a.toNat) % 2 ^ width := by
  have doubled : (dbl acc).toNat = 2 * (acc.toNat % 2 ^ width) := by
    simp only [dbl, BitVec.toNat_concat, BitVec.toNat_setWidth, Bool.toNat_false]
    omega
  have unreduced : (red1 (BitVec.ofNat width 0) acc).toNat = (dbl acc).toNat := by
    rw [red1, dblSub, toNat_condSub, mExt_toNat, BitVec.toNat_ofNat, Nat.zero_mod, condSub_zero]
  cases bit with
  | false => simp [step, unreduced, doubled]
  | true =>
      have halves : 2 ^ width ∣ 2 ^ (width + 1) := Nat.pow_dvd_pow 2 (Nat.le_succ width)
      simp only [step, ↓reduceIte, Bool.toNat_true, Nat.one_mul]
      rw [red2, addSub, toNat_condSub, mExt_toNat, BitVec.toNat_ofNat, Nat.zero_mod, condSub_zero,
        add, BitVec.toNat_add, BitVec.toNat_setWidth_of_le (Nat.le_succ width), unreduced, doubled,
        Nat.mod_mod_of_dvd _ halves]

theorem value_zero_modulus (a b : BitVec width) :
    (value a b (BitVec.ofNat width 0)).toNat = a.toNat * b.toNat % 2 ^ width := by
  have horner := serial_horner (step a (BitVec.ofNat width 0)) (fun acc => acc.toNat % 2 ^ width) (Nat.two_pow_pos width)
    (fun bit acc _ => step_zero_modulus a bit acc) (Nat.le_refl width) b (0 : BitVec (width + 1))
    (by simp)
  change ((serial (step a (BitVec.ofNat width 0)) width b 0).setWidth width).toNat = _
  rw [BitVec.toNat_setWidth]
  simpa using horner

/-- At every WIDTH from any reachable state: an accepted start within the
preconditions is answered after exactly WIDTH edges by the product, which stays
until the next pulse, and pulses match accepted starts one to one. -/
theorem product_after_width (wide : 2 ≤ width) {s : State width}
    (reached : (machine width).Reachable s) (ins : ℕ → Input width)
    (released : ∀ n, (ins n).rstN = true) :
    (∀ t, ((machine width).trace s ins t).state = .sIdle → (ins t).start = true →
      0 < (ins t).m.toNat → (ins t).a.toNat < (ins t).m.toNat →
      (∀ k < width, ((machine width).trace s ins (t + 1 + k)).busy = true ∧
        ((machine width).trace s ins (t + 1 + k)).done = false) ∧
      ((machine width).trace s ins (t + 1 + width)).busy = false ∧
      ((machine width).trace s ins (t + 1 + width)).done = true ∧
      ∀ n, t + 1 + width ≤ n →
        (∀ k, t + 1 + width < k → k ≤ n → ((machine width).trace s ins k).done = false) →
        ((machine width).trace s ins n).result.toNat =
          (ins t).a.toNat * (ins t).b.toNat % (ins t).m.toNat) ∧
    ∀ n, ((machine width).trace s ins (n + 1 + width)).done = true ↔
      ((machine width).trace s ins n).state = .sIdle ∧ (ins n).start = true := by
  have positive : 0 < width := by omega
  obtain ⟨delivers, pulses⟩ := (circuit width).delivers positive reached released
  simp only [circuit, toSerial_running, busy_eq_false] at delivers pulses
  refine ⟨fun t phase start _ within => ?_, pulses⟩
  obtain ⟨working, idle, pulse, kept⟩ := delivers t phase start
  refine ⟨working, (busy_eq_false _).mpr idle, pulse, fun n later low => ?_⟩
  rw [← value_toNat _ _ _ within]
  exact congrArg BitVec.toNat (kept n later low)

/-- 3 * 6 mod 5 at WIDTH 3, with an unreduced multiplier and start held high. -/
theorem product_after_width_three :
    ((machine 3).trace .reset (fun _ => ⟨true, true, 3, 6, 5⟩) 4).done = true ∧
      ((machine 3).trace .reset (fun _ => ⟨true, true, 3, 6, 5⟩) 4).result.toNat = 3 := by
  obtain ⟨delivers, -⟩ := product_after_width (by decide : 2 ≤ 3) .reset
    (fun _ => ⟨true, true, 3, 6, 5⟩) (fun _ => rfl)
  obtain ⟨-, -, pulse, kept⟩ := delivers 0 rfl rfl (by decide) (by decide)
  exact ⟨pulse, kept 4 (Nat.le_refl 4) (by omega)⟩

end BlindSig.Mulmod
