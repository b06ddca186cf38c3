import BlindSig.MulmodProduct

set_option autoImplicit false

/- mulmod_sim.cpp: the harness that drives the clock of mulmod at WIDTH 32. -/
namespace BlindSig.Demo

open Clocked

abbrev U32 := BitVec 32

structure Operands where
  a : U32
  b : U32
  m : U32
deriving DecidableEq

/-- The reference, a `BigInt` product and remainder. -/
def bigMulMod (a b m : U32) : ℕ := a.toNat * b.toNat % m.toNat

/-- The circuit behind `g_top` with its input ports, and the other two globals. -/
structure Harness where
  top : Mulmod.State 32
  rstN : Bool
  start : Bool
  a : U32
  b : U32
  m : U32
  gCycles : U32
  gLatched : Bool
deriving DecidableEq

namespace Harness

def tick (h : Harness) : Harness := { h with top := h.top.edge ⟨h.rstN, h.start, h.a, h.b, h.m⟩ }

def simReset (h : Harness) : Harness :=
  let held : Harness := { h with rstN := false, start := false, a := 0, b := 0, m := 0 }
  { held.tick.tick with rstN := true, gCycles := 0, gLatched := false }

def simLoad (h : Harness) (a b m : U32) : Harness :=
  { h with a := a, b := b, m := m, start := true, gCycles := 0, gLatched := false }

def simStep (h : Harness) : Harness × Bool :=
  let h := h.tick
  let h := if h.gLatched then h else { h with start := false, gLatched := true }
  let h := { h with gCycles := h.gCycles + 1 }
  (h, h.top.done)

def simResult (h : Harness) : U32 := h.top.result

def simCycles (h : Harness) : U32 := h.gCycles

/-- `while (!sim.step() && guard++ < 100) {}` with `left` of the hundred left. -/
def stepUntilDone (h : Harness) : ℕ → Harness
  | 0 => h.simStep.1
  | left + 1 => if h.simStep.2 then h.simStep.1 else h.simStep.1.stepUntilDone left

/-- The harness after a reset, a load and `k` steps. -/
def after (o : Operands) : ℕ → Harness
  | 0 => ⟨.reset, true, true, o.a, o.b, o.m, 0, false⟩
  | k + 1 => (after o k).simStep.1

/-- Every register and port at zero. -/
def initial : Harness := ⟨.reset, false, false, 0, 0, 0, 0, false⟩

variable (o : Operands)

/-- Nothing of what ran before survives a reset and a load. -/
theorem simLoad_simReset (h : Harness) : h.simReset.simLoad o.a o.b o.m = after o 0 := rfl

/-- The ports stay, `start` drops after the first step, the counter counts. -/
theorem after_eq (k : ℕ) : after o k =
    ⟨(after o k).top, true, k == 0, o.a, o.b, o.m, BitVec.ofNat 32 k, k != 0⟩ := by
  induction k with
  | zero => rfl
  | succ k ih =>
      rw [after, ih]
      cases k with
      | zero => rfl
      | succ k => simp [simStep, tick, BitVec.ofNat_add]

theorem after_top (k : ℕ) :
    (after o (k + 1)).top = (after o k).top.edge ⟨true, k == 0, o.a, o.b, o.m⟩ := by
  rw [after, after_eq o k]
  cases k with
  | zero => rfl
  | succ k => rfl

theorem simCycles_after (k : ℕ) : (after o k).simCycles = BitVec.ofNat 32 k := by
  rw [simCycles, after_eq]

/-- The first step starts the circuit, and it is done 32 steps later. -/
theorem after_due {k : ℕ} (inside : k ≤ 32) : (after o (k + 1)).top.toSerial.Due
    (Mulmod.datapath 32) (Mulmod.value o.a o.b o.m) (32 - k) := by
  induction k with
  | zero =>
      rw [after_top, Nat.sub_zero]
      exact (Mulmod.circuit 32).due_start (s := .reset) (i := ⟨true, true, o.a, o.b, o.m⟩) (by decide) rfl rfl rfl
  | succ k ih =>
      have due := ih (by omega)
      rw [show 32 - k = 32 - (k + 1) + 1 by omega] at due
      rw [after_top, Mulmod.toSerial_edge _ _ rfl]
      exact due.edge _

/-- The operands in the registers of the circuit. -/
theorem after_latched {k : ℕ} (inside : k ≤ 32) : (after o (k + 1)).top.aReg = o.a ∧
    (after o (k + 1)).top.bReg = o.b <<< k ∧ (after o (k + 1)).top.mReg = o.m := by
  induction k with
  | zero =>
      rw [after_top]
      simp [Mulmod.State.edge, Mulmod.State.clock, after, Mulmod.State.reset]
  | succ k ih =>
      obtain ⟨a, b, m⟩ := ih (by omega)
      have running : (after o (k + 1)).top.state = .sRun := by
        have due := after_due o (k := k) (by omega)
        rw [show 32 - k = 32 - (k + 1) + 1 by omega] at due
        exact of_decide_eq_true due.1
      rw [after_top]
      simp only [Mulmod.State.edge, ↓reduceIte, Mulmod.State.clock, running]
      split <;> simp [a, b, m, BitVec.shiftLeft_add]

theorem after_done {k : ℕ} (last : k = 32) : (after o (k + 1)).top.done = true ∧
    (after o (k + 1)).top.result = Mulmod.value o.a o.b o.m := by
  have due := after_due o (Nat.le_of_eq last)
  rw [Nat.sub_eq_zero_of_le (Nat.le_of_eq last.symm)] at due
  exact due.2

/-- `done` is high after 33 steps and at no earlier one. -/
theorem simStep_after {k : ℕ} (inside : k ≤ 32) :
    (after o k).simStep = (after o (k + 1), decide (k = 32)) := by
  have done : (after o (k + 1)).top.done = decide (k = 32) := by
    rcases Nat.lt_or_eq_of_le inside with earlier | last
    · have due := after_due o inside
      rw [show 32 - k = 32 - (k + 1) + 1 by omega] at due
      rw [decide_eq_false (Nat.ne_of_lt earlier)]
      exact due.2.2.1
    · rw [decide_eq_true last]
      exact (after_done o last).1
  rw [← done]
  rfl

theorem stepUntilDone_after {k left : ℕ} (inside : k ≤ 32) (enough : 32 - k ≤ left) :
    (after o k).stepUntilDone left = after o 33 := by
  induction left generalizing k with
  | zero =>
      obtain rfl : k = 32 := by omega
      rw [stepUntilDone, simStep_after o inside]
  | succ left ih =>
      rw [stepUntilDone, simStep_after o inside]
      rcases Nat.lt_or_eq_of_le inside with earlier | last
      · rw [if_neg (by simpa using Nat.ne_of_lt earlier)]
        exact ih earlier (by omega)
      · rw [if_pos (by simpa using last), last]

theorem simResult_after (within : o.a.toNat < o.m.toNat) :
    (after o 33).simResult.toNat = bigMulMod o.a o.b o.m := by
  rw [bigMulMod, ← Mulmod.value_toNat o.a o.b o.m within, simResult, (after_done o rfl).2]

-- A session names the circuit by its operands and its step, and never runs it.
attribute [irreducible] after

end Harness

end BlindSig.Demo
