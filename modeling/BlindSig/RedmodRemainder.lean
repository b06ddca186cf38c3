import BlindSig.Redmod

set_option autoImplicit false

namespace BlindSig.Redmod

open Clocked BitSerial

variable {width : ℕ}

@[simp] theorem mExt_toNat (mReg : BitVec width) : (mExt mReg).toNat = mReg.toNat :=
  BitVec.toNat_setWidth_of_le (Nat.le_succ width)

@[simp] theorem shifted_toNat (r : BitVec width) (bit : Bool) :
    (shifted r bit).toNat = 2 * r.toNat + bit.toNat := by
  rw [shifted, BitVec.toNat_concat]
  omega

theorem nextR_toNat (mReg r : BitVec width) (bit : Bool) (reduced : r.toNat < mReg.toNat) :
    (nextR mReg bit r).toNat = (2 * r.toNat + bit.toNat) % mReg.toNat := by
  have digit := bit.toNat_le
  rw [nextR, sub, toNat_condSub, mExt_toNat, shifted_toNat]
  exact condSub_eq_mod (by omega)

/-- The top bit of the reduced remainder is clear, so storing it loses nothing. -/
theorem round_toNat (mReg r : BitVec width) (bit : Bool) (reduced : r.toNat < mReg.toNat) :
    ((nextR mReg bit r).setWidth width).toNat = (2 * r.toNat + bit.toNat) % mReg.toNat := by
  have bound : (2 * r.toNat + bit.toNat) % mReg.toNat < 2 ^ width :=
    Nat.lt_trans (Nat.mod_lt _ (Nat.zero_lt_of_lt reduced)) mReg.isLt
  rw [BitVec.toNat_setWidth, nextR_toNat mReg r bit reduced, Nat.mod_eq_of_lt bound]

theorem value_toNat (x m : BitVec width) (positive : 0 < m.toNat) :
    (value x m).toNat = x.toNat % m.toNat := by
  have horner := serial_horner (fun bit r => (nextR m bit r).setWidth width) BitVec.toNat positive
    (a := 1) (fun bit r reduced => by simpa using round_toNat m r bit reduced)
    (Nat.le_refl width) x (0 : BitVec width) (by simpa using positive)
  change (serial (fun bit r => (nextR m bit r).setWidth width) width x 0).toNat = _
  simpa using horner

/-- At every WIDTH from any reachable state: an accepted start over a positive
modulus is answered after exactly WIDTH edges by the remainder, which stays until
the next pulse, and pulses match accepted starts one to one. -/
theorem remainder_after_width (wide : 2 ≤ width) {s : State width}
    (reached : (machine width).Reachable s) (ins : ℕ → Input width)
    (released : ∀ n, (ins n).rstN = true) :
    (∀ t, ((machine width).trace s ins t).state = .sIdle → (ins t).start = true →
      0 < (ins t).m.toNat →
      (∀ k < width, ((machine width).trace s ins (t + 1 + k)).busy = true ∧
        ((machine width).trace s ins (t + 1 + k)).done = false) ∧
      ((machine width).trace s ins (t + 1 + width)).busy = false ∧
      ((machine width).trace s ins (t + 1 + width)).done = true ∧
      ∀ n, t + 1 + width ≤ n →
        (∀ k, t + 1 + width < k → k ≤ n → ((machine width).trace s ins k).done = false) →
        ((machine width).trace s ins n).result.toNat = (ins t).x.toNat % (ins t).m.toNat) ∧
    ∀ n, ((machine width).trace s ins (n + 1 + width)).done = true ↔
      ((machine width).trace s ins n).state = .sIdle ∧ (ins n).start = true := by
  have positive : 0 < width := by omega
  obtain ⟨delivers, pulses⟩ := (circuit width).delivers positive reached released
  simp only [circuit, toSerial_running, busy_eq_false] at delivers pulses
  refine ⟨fun t phase start modulus => ?_, pulses⟩
  obtain ⟨working, idle, pulse, kept⟩ := delivers t phase start
  refine ⟨working, (busy_eq_false _).mpr idle, pulse, fun n later low => ?_⟩
  rw [← value_toNat _ _ modulus]
  exact congrArg BitVec.toNat (kept n later low)

/-- 7 mod 5 at WIDTH 3, with start held high. -/
theorem remainder_after_width_three :
    ((machine 3).trace .reset (fun _ => ⟨true, true, 7, 5⟩) 4).done = true ∧
      ((machine 3).trace .reset (fun _ => ⟨true, true, 7, 5⟩) 4).result.toNat = 2 := by
  obtain ⟨delivers, -⟩ := remainder_after_width (by decide : 2 ≤ 3) .reset
    (fun _ => ⟨true, true, 7, 5⟩) (fun _ => rfl)
  obtain ⟨-, -, pulse, kept⟩ := delivers 0 rfl rfl (by decide)
  exact ⟨pulse, kept 4 (Nat.le_refl 4) (by omega)⟩

end BlindSig.Redmod
