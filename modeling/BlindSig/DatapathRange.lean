import BlindSig.MulmodProduct
import BlindSig.RedmodRemainder

set_option autoImplicit false

namespace BlindSig

open Clocked BitSerial

variable {width : ℕ}

/-- The bit above the range of a value is clear. -/
theorem top_clear {v : BitVec (width + 1)} (room : v.toNat < 2 ^ width) : v.getLsbD width = false :=
  Nat.testBit_lt_two_pow room

/-- Storing the low bits of such a value stores the value. -/
theorem stored_toNat {v : BitVec (width + 1)} (room : v.toNat < 2 ^ width) :
    (v.setWidth width).toNat = v.toNat := by
  rw [BitVec.toNat_setWidth, Nat.mod_eq_of_lt room]

/-- The counter can be decremented and has `left` to go. -/
structure Counts (width : ℕ) {c : ℕ} (cnt : BitVec c) (left : ℕ) : Prop where
  count : cnt.toNat = left
  positive : 1 ≤ cnt.toNat
  within : cnt.toNat ≤ width
  pred : (cnt - 1#c).toNat = cnt.toNat - 1

theorem counts_of_left {c left : ℕ} {cnt : BitVec c} (count : cnt.toNat = left) (positive : 0 < left)
    (within : left ≤ width) : Counts width cnt left := by
  have bound := cnt.isLt
  have one : (1#c).toNat = 1 := by
    rw [BitVec.toNat_ofNat]
    apply Nat.mod_eq_of_lt
    omega
  refine ⟨count, by omega, by omega, ?_⟩
  rw [BitVec.toNat_sub_of_le (BitVec.le_def.mpr (by omega)), one]

namespace Mulmod

/-- A cycle of S_RUN with `left` rounds to go in which nothing significant is lost. -/
structure Lossless (left : ℕ) (s : State width) : Prop where
  state : s.state = .sRun
  counts : Counts width s.cnt left
  acc_lt : s.acc.toNat < s.mReg.toNat
  acc_top : s.acc.getLsbD width = false
  dbl_eq : (dbl s.acc).toNat = 2 * s.acc.toNat
  red1_lt : (red1 s.mReg s.acc).toNat < s.mReg.toNat
  add_room : (red1 s.mReg s.acc).toNat + s.aReg.toNat < 2 ^ (width + 1)
  add_eq : (add s.aReg s.mReg s.acc).toNat = (red1 s.mReg s.acc).toNat + s.aReg.toNat
  red2_lt : (red2 s.aReg s.mReg s.acc).toNat < s.mReg.toNat
  step_lt : (step s.aReg s.mReg s.bReg.msb s.acc).toNat < s.mReg.toNat
  stored : ((step s.aReg s.mReg s.bReg.msb s.acc).setWidth width).toNat =
    (step s.aReg s.mReg s.bReg.msb s.acc).toNat

theorem step_lt (aReg mReg : BitVec width) (bit : Bool) (acc : BitVec (width + 1))
    (within : aReg.toNat < mReg.toNat) (reduced : acc.toNat < mReg.toNat) :
    (step aReg mReg bit acc).toNat < mReg.toNat := by
  rw [step_toNat aReg mReg bit acc within reduced]
  exact Nat.mod_lt _ (Nat.zero_lt_of_lt reduced)

/-- Every range follows from those of `acc` and `a_reg`. -/
theorem lossless_of_reduced {left : ℕ} {s : State width} (running : s.state = .sRun)
    (counts : Counts width s.cnt left) (within : s.aReg.toNat < s.mReg.toNat)
    (reduced : s.acc.toNat < s.mReg.toNat) : Lossless left s := by
  have bound := s.mReg.isLt
  have room : s.acc.toNat < 2 ^ width := Nat.lt_trans reduced bound
  have low := red1_lt s.mReg s.acc reduced
  have next := step_lt s.aReg s.mReg s.bReg.msb s.acc within reduced
  refine ⟨running, counts, reduced, top_clear room, dbl_toNat s.acc room, low, ?_,
    add_toNat s.aReg s.mReg s.acc within reduced, ?_, next, stored_toNat (Nat.lt_trans next bound)⟩
  · rw [Nat.pow_succ]
    omega
  · exact step_lt s.aReg s.mReg true s.acc within reduced

/-- In every cycle of a run that started within the preconditions. -/
theorem lossless_trace (s : State width) (ins : ℕ → Input width) (idle : s.state = .sIdle)
    (start : (ins 0).start = true) (within : (ins 0).a.toNat < (ins 0).m.toNat) (k : ℕ)
    (inside : k < width) (released : ∀ j ≤ k, (ins j).rstN = true) :
    Lossless (width - k) ((machine width).trace s ins (k + 1)) := by
  have working := (circuit width).working_trace (fun acc => acc.toNat < (ins 0).m.toNat)
    ((ins 0).a, (ins 0).m)
    (fun bit acc reduced => step_lt (ins 0).a (ins 0).m bit acc within reduced)
    (by simpa [datapath] using Nat.zero_lt_of_lt within) ((busy_eq_false s).mpr idle) start rfl
    k inside released
  obtain ⟨running, latched, count, reduced⟩ := working
  have a : ((machine width).trace s ins (k + 1)).aReg = (ins 0).a := congrArg Prod.fst latched
  have m : ((machine width).trace s ins (k + 1)).mReg = (ins 0).m := congrArg Prod.snd latched
  apply lossless_of_reduced
  · exact of_decide_eq_true running
  · exact counts_of_left count (by omega) (by omega)
  · rw [a, m]
    exact within
  · rw [m]
    exact reduced

end Mulmod

namespace Redmod

/-- A cycle of S_RUN with `left` rounds to go in which nothing significant is lost. -/
structure Lossless (left : ℕ) (s : State width) : Prop where
  state : s.state = .sRun
  counts : Counts width s.cnt left
  r_lt : s.r.toNat < s.mReg.toNat
  shifted_eq : (shifted s.r s.xReg.msb).toNat = 2 * s.r.toNat + s.xReg.msb.toNat
  nextR_top : (nextR s.mReg s.xReg.msb s.r).getLsbD width = false
  stored : ((nextR s.mReg s.xReg.msb s.r).setWidth width).toNat =
    (nextR s.mReg s.xReg.msb s.r).toNat

theorem nextR_lt (mReg r : BitVec width) (bit : Bool) (reduced : r.toNat < mReg.toNat) :
    (nextR mReg bit r).toNat < mReg.toNat := by
  rw [nextR_toNat mReg r bit reduced]
  exact Nat.mod_lt _ (Nat.zero_lt_of_lt reduced)

theorem round_lt (mReg r : BitVec width) (bit : Bool) (reduced : r.toNat < mReg.toNat) :
    ((nextR mReg bit r).setWidth width).toNat < mReg.toNat := by
  have next := nextR_lt mReg r bit reduced
  rwa [stored_toNat (Nat.lt_trans next mReg.isLt)]

/-- Every range follows from that of `r`. -/
theorem lossless_of_reduced {left : ℕ} {s : State width} (running : s.state = .sRun)
    (counts : Counts width s.cnt left) (reduced : s.r.toNat < s.mReg.toNat) : Lossless left s := by
  have next := nextR_lt s.mReg s.r s.xReg.msb reduced
  have room := Nat.lt_trans next s.mReg.isLt
  exact ⟨running, counts, reduced, shifted_toNat s.r s.xReg.msb, top_clear room, stored_toNat room⟩

/-- In every cycle of a run that started within the precondition. -/
theorem lossless_trace (s : State width) (ins : ℕ → Input width) (idle : s.state = .sIdle)
    (start : (ins 0).start = true) (positive : 0 < (ins 0).m.toNat) (k : ℕ) (inside : k < width)
    (released : ∀ j ≤ k, (ins j).rstN = true) :
    Lossless (width - k) ((machine width).trace s ins (k + 1)) := by
  have working := (circuit width).working_trace (fun r => r.toNat < (ins 0).m.toNat)
    (ins 0).m (fun bit r reduced => round_lt (ins 0).m r bit reduced)
    (by simpa [datapath] using positive) ((busy_eq_false s).mpr idle) start rfl k inside released
  obtain ⟨running, latched, count, reduced⟩ := working
  have m : ((machine width).trace s ins (k + 1)).mReg = (ins 0).m := latched
  apply lossless_of_reduced
  · exact of_decide_eq_true running
  · exact counts_of_left count (by omega) (by omega)
  · rw [m]
    exact reduced

end Redmod

/-- At every WIDTH, in each cycle that an operation within its preconditions
spends in S_RUN, up to its last one or to a reset, whatever ran before. -/
theorem datapaths_lossless (wide : 2 ≤ width) :
    (∀ s, (Mulmod.machine width).Reachable s → ∀ ins : ℕ → Mulmod.Input width,
      s.state = .sIdle → (ins 0).start = true → 0 < (ins 0).m.toNat →
      (ins 0).a.toNat < (ins 0).m.toNat →
      (∀ k < width, (∀ j ≤ k, (ins j).rstN = true) →
        Mulmod.Lossless (width - k) ((Mulmod.machine width).trace s ins (k + 1))) ∧
      ((∀ j < width, (ins j).rstN = true) →
        ((Mulmod.machine width).trace s ins (width + 1)).state = .sIdle)) ∧
    ∀ s, (Redmod.machine width).Reachable s → ∀ ins : ℕ → Redmod.Input width,
      s.state = .sIdle → (ins 0).start = true → 0 < (ins 0).m.toNat →
      (∀ k < width, (∀ j ≤ k, (ins j).rstN = true) →
        Redmod.Lossless (width - k) ((Redmod.machine width).trace s ins (k + 1))) ∧
      ((∀ j < width, (ins j).rstN = true) →
        ((Redmod.machine width).trace s ins (width + 1)).state = .sIdle) := by
  have nonzero : 0 < width := by omega
  constructor
  · intro s _ ins idle start _ within
    refine ⟨Mulmod.lossless_trace s ins idle start within, fun released => ?_⟩
    exact (Mulmod.busy_eq_false _).mp ((Mulmod.circuit width).idle_trace nonzero
      ((Mulmod.busy_eq_false s).mpr idle) start released)
  · intro s _ ins idle start positive
    refine ⟨Redmod.lossless_trace s ins idle start positive, fun released => ?_⟩
    exact (Redmod.busy_eq_false _).mp ((Redmod.circuit width).idle_trace nonzero
      ((Redmod.busy_eq_false s).mpr idle) start released)

/-- 6 * 5 modulo 7, the largest modulus at WIDTH 3, in the second round. -/
theorem datapaths_lossless_three :
    Mulmod.Lossless 2 ((Mulmod.machine 3).trace .reset (fun _ => ⟨true, true, 6, 5, 7⟩) 2) := by
  have every := (datapaths_lossless (by decide : 2 ≤ 3)).1 .reset .reset
    (fun _ => ⟨true, true, 6, 5, 7⟩) rfl rfl (by decide) (by decide)
  exact every.1 1 (by decide) fun _ _ => rfl

end BlindSig
