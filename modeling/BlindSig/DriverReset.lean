import BlindSig.AccelPreconditions
import BlindSig.AccelReset
import BlindSig.DriverCompute

set_option autoImplicit false

namespace BlindSig.Driver

open Clocked Accel

variable {s : State} {i : Pins}

/-- After the RESET write `i` no read can tell the peripheral from one after a
hardware reset, and a `compute` whose RESET is sampled in `s` is right. -/
structure SoftResetIsHard (s : State) (i : Pins) : Prop where
  reads : machine.Indist readMux (s.edge i) .reset
  computes : ∀ polls, 69 ≤ polls → ∀ (gap : ℕ → List Idle) k, gap k = [] →
    ∀ modulus operand, answer (bus.run gap (compute polls modulus operand) k s).value =
      some (squareOf modulus operand)

theorem indist_bus {t : State} (same : machine.Indist readMux s t) :
    bus.device.Indist bus.rdata s t :=
  fun ins n => congrFun (same ins n) (ins n).addr

/-- The reads of `compute` are among those that cannot tell. -/
theorem compute_of_indist (same : machine.Indist readMux (s.edge (busWrite regCtrl ctrlReset)) .reset)
    {polls : ℕ} (enough : 69 ≤ polls) {gap : ℕ → List Idle} {k : ℕ} (prompt : gap k = [])
    (modulus operand : List Word) :
    answer (bus.run gap (compute polls modulus operand) k s).value =
      some (squareOf modulus operand) := by
  have started : (bus.run gap reset k s).state = s.edge (busWrite regCtrl ctrlReset) := by
    change machine.edge (bus.wait s (gap k)) _ = _
    rw [prompt]
    rfl
  rw [compute, Bus.run_bind, started, Bus.run_congr bus (indist_bus same)]
  exact (triple_afterReset enough modulus operand gap _ .reset loaded_reset).answer

/-- A soft reset is as good as a hardware reset exactly when it is clean. -/
theorem softReset_iff (reached : machine.Reachable s) (written : i.resetWrite) :
    SoftResetIsHard s i ↔ CleanReset s := by
  constructor
  · exact fun hard => (indist_reset_iff reached written).mp hard.reads
  · intro clean
    refine ⟨(indist_reset_iff reached written).mpr clean, ?_⟩
    intro polls enough gap k prompt modulus operand
    exact compute_of_indist ((indist_reset_iff reached (by decide)).mpr clean) enough prompt
      modulus operand

/-- RESET while mulmod is at work on the square of 10 modulo 7. -/
theorem softReset_squareTen : SoftResetIsHard (machine.trace .reset squareTen 45)
    (busWrite addrCtrl 2) :=
  (softReset_iff (Machine.Reachable.reset.trace _ 45) (by decide)).mpr
    ⟨by decide +kernel, by decide +kernel, by decide +kernel, by decide +kernel⟩

theorem softReset_at_handOver :
    ¬∀ s i, machine.Reachable s → i.resetWrite → SoftResetIsHard s i := by
  intro always
  have hard := always (machine.trace .reset resetAtHandOver 38) (busWrite addrCtrl 2)
    (Machine.Reachable.reset.trace _ 38) (by decide)
  have clean := (indist_reset_iff (Machine.Reachable.reset.trace _ 38) (by decide)).mp hard.reads
  exact absurd clean.noHandOver (by decide +kernel)

end BlindSig.Driver
