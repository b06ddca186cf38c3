import BlindSig.AccelBusy
import BlindSig.RedmodRemainder

set_option autoImplicit false

/- The preconditions of redmod and mulmod, and the three commands that break
them: the residue passes through a register that the bus can outrun. -/
namespace BlindSig.Accel

open Clocked

/-- What the units are specified for, at the edges where they sample a start. -/
structure Preconditions (s : State) (i : Pins) : Prop where
  redmod : (s.redmodInput i).rstN = true → (s.redmodInput i).start = true →
    s.uRedmod.state = .sIdle → (s.redmodInput i).m ≠ 0
  mulmod : (s.mulmodInput i).rstN = true → (s.mulmodInput i).start = true →
    s.uMulmod.state = .sIdle → 0 < (s.mulmodInput i).m.toNat ∧
      (s.mulmodInput i).a.toNat < (s.mulmodInput i).m.toNat

/-- The residue that redmod holds or is about to report. -/
def State.residue (s : State) : ℕ := (s.uRedmod.toSerial.outcome (Redmod.datapath 32)).toNat

/-- RESET does not meet the report of redmod, a START finds redmod idle or over
a smaller residue, and no modulus in flight is replaced by one that does not
exceed the residue. -/
def Orderly (s : State) (i : Pins) : Prop :=
  i.rstN = true →
    match s.command i with
    | .reset => s.handsOver = false
    | .start => s.uRedmod.busy = true → s.residue < s.modulus.toNat
    | .modulus value => s.cstate = .cReduce → s.residue < value.toNat
    | _ => True

instance (s : State) (i : Pins) : Decidable (Orderly s i) := by
  unfold Orderly
  cases s.command i <;> infer_instance

/-- While redmod works for the control its residue stays below the modulus, and
what it has handed over is below the modulus too. -/
structure Reduced (s : State) : Prop where
  control : Control s
  reducing : s.cstate = .cReduce →
    (s.redmodStart = true ∧ s.uRedmod.toSerial.Quiet) ∨ s.residue < s.modulus.toNat
  handed : s.mulmodStart = true → s.aReduced.toNat < s.modulus.toNat

variable {s : State} {i : Pins}

theorem reduced_reset : Reduced .reset :=
  ⟨control_reset, by simp [State.reset], by simp [State.reset]⟩

/-- While an operation is being reduced the modulus moves by armed writes only. -/
theorem modulus_edge (released : i.rstN = true) (orderly : Orderly s i)
    (phase : s.cstate = .cReduce) (kept : s.command i ≠ .reset) (below : s.residue < s.modulus.toNat) :
    s.residue < (s.edge i).modulus.toNat := by
  have passed := orderly released
  rw [edge_modulus released]
  cases order : s.command i with
  | reset => exact absurd order kept
  | modulus value =>
      rw [order] at passed
      exact passed phase
  | start => exact below
  | refuse => exact below
  | quiet => exact below
  | loadOp => exact below
  | loadMod => exact below
  | operand value => exact below

theorem residue_edge (released : i.rstN = true) (control : Control s)
    (running : s.uRedmod.busy = true) : (s.edge i).residue = s.residue := by
  unfold State.residue
  rw [edge_redmod released, SerialUnit.outcome_edge control.redmodFits running]

/-- An accepted reduction stays below the modulus it latched. -/
theorem residue_start (released : i.rstN = true) (control : Control s)
    (start : s.redmodStart = true) (idle : s.uRedmod.toSerial.running = false) :
    (s.edge i).residue < s.modulus.toNat := by
  have due := redmod_due released idle start
  have nonzero := (control.requested start).2.1
  have positive : 0 < s.modulus.toNat :=
    Nat.pos_of_ne_zero fun zero => nonzero (BitVec.eq_of_toNat_eq zero)
  unfold State.residue
  rw [due.outcome, Redmod.value_toNat _ _ positive]
  exact Nat.mod_lt _ positive

theorem modulus_edge_requested (released : i.rstN = true) (control : Control s)
    (start : s.redmodStart = true) (kept : s.command i ≠ .reset) :
    (s.edge i).modulus = s.modulus := by
  obtain ⟨-, -, -, unarmed⟩ := control.requested start
  rw [edge_modulus released]
  cases order : s.command i with
  | reset => exact absurd order kept
  | modulus value =>
      have armed := command_modulus order
      simp [unarmed] at armed
  | _ => rfl

/-- A START that is taken finds redmod idle, or over a residue below the modulus. -/
theorem reduced_edge_start (released : i.rstN = true) (control : Control s) (orderly : Orderly s i)
    (started : s.command i = .start) :
    ((s.edge i).redmodStart = true ∧ (s.edge i).uRedmod.toSerial.Quiet) ∨
      (s.edge i).residue < (s.edge i).modulus.toNat := by
  have idle := (command_start started).1
  have low : s.redmodStart = false := by
    apply eq_false_of_ne_true
    intro start
    simp [(control.requested start).1] at idle
  cases running : s.uRedmod.busy with
  | false =>
      left
      rw [edge_redmodStart released, started, edge_redmod released,
        SerialUnit.edge_idle running low]
      exact ⟨rfl, running, rfl⟩
  | true =>
      right
      have below := orderly released
      rw [started] at below
      rw [residue_edge released control running, edge_modulus released, started]
      exact below running

/-- While redmod works or reports, its residue is below the modulus. -/
theorem Reduced.below (reduced : Reduced s) (phase : s.cstate = .cReduce)
    (active : s.uRedmod.busy = true ∨ s.uRedmod.done = true) : s.residue < s.modulus.toNat := by
  rcases reduced.reducing phase with ⟨-, quiet⟩ | below
  · have idle : s.uRedmod.busy = false := quiet.idle
    have low : s.uRedmod.done = false := quiet.low
    simp [idle, low] at active
  · exact below

theorem reduced_edge_kept (released : i.rstN = true) (reduced : Reduced s) (orderly : Orderly s i)
    (phase : s.cstate = .cReduce) (handsOver : s.handsOver = false) (kept : s.command i ≠ .reset) :
    (s.edge i).residue < (s.edge i).modulus.toNat := by
  have control := reduced.control
  cases running : s.uRedmod.busy with
  | true =>
      rw [residue_edge released control running]
      exact modulus_edge released orderly phase kept (reduced.below phase (Or.inl running))
  | false =>
      -- no run and no pulse, so the start is pending
      have start : s.redmodStart = true := by
        rcases (control.reducing phase).2 with start | work | pulse
        · exact start
        · simp [running] at work
        · simp [State.handsOver, phase, pulse] at handsOver
      rw [modulus_edge_requested released control start kept]
      exact residue_start released control start running

/-- What redmod hands over is the residue it reports. -/
theorem handed_edge (released : i.rstN = true) (reduced : Reduced s) (orderly : Orderly s i)
    (handsOver : s.handsOver = true) : (s.edge i).aReduced.toNat < (s.edge i).modulus.toNat := by
  obtain ⟨phase, pulse⟩ := handsOver_iff.mp handsOver
  have kept : s.command i ≠ .reset := by
    intro order
    have calm := orderly released
    rw [order, handsOver] at calm
    cases calm
  have reported : s.residue = s.uRedmod.result.toNat := by
    have idle : s.uRedmod.toSerial.running = false := reduced.control.redmodFits.resting pulse
    rw [State.residue, SerialUnit.outcome, idle]
    rfl
  rw [edge_aReduced released, handsOver, if_pos rfl, ← reported]
  exact modulus_edge released orderly phase kept (reduced.below phase (Or.inr pulse))

theorem reduced_edge (reduced : Reduced s) (orderly : Orderly s i) : Reduced (s.edge i) := by
  cases released : i.rstN with
  | false => rw [edge_held released]; exact reduced_reset
  | true =>
      refine ⟨control_edge reduced.control i, fun phase' => ?_, fun handed => ?_⟩
      · obtain ⟨handsOver, started | ⟨phase, kept⟩⟩ := reducing_edge_inv released phase'
        · exact reduced_edge_start released reduced.control orderly started
        · exact Or.inr (reduced_edge_kept released reduced orderly phase handsOver kept)
      · rw [edge_mulmodStart released] at handed
        exact handed_edge released reduced orderly handed

theorem preconditions_of_reduced (reduced : Reduced s) (i : Pins) : Preconditions s i :=
  ⟨fun _ start _ => (reduced.control.requested start).2.1, fun _ start _ =>
    ⟨Nat.zero_lt_of_lt (reduced.handed start), reduced.handed start⟩⟩

/-- In every run whose steps are orderly the units are used within their
preconditions. -/
theorem preconditions_of_orderly (ins : ℕ → Pins)
    (orderly : ∀ n, Orderly (machine.trace .reset ins n) (ins n)) (n : ℕ) :
    Preconditions (machine.trace .reset ins n) (ins n) := by
  have reduced := machine.trace_guarded Reduced
    (fun s i inv pass => reduced_edge inv pass) reduced_reset orderly n
  exact preconditions_of_reduced reduced (ins n)

/-- The documented sequence over 7 and 10. -/
def squareTen : ℕ → Pins := script [busWrite addrCtrl 8, busWrite addrModulus 7,
  busWrite addrCtrl 4, busWrite addrOperand 10, busWrite addrCtrl 1]

/-- mulmod samples its start in cycle 39 of the documented sequence. -/
theorem preconditions_squareTen :
    Preconditions (machine.trace .reset squareTen 39) (squareTen 39) := by
  refine preconditions_of_orderly squareTen (fun n => ?_) 39
  by_cases early : n < 5
  · revert n
    decide +kernel
  · intro _
    rw [squareTen, script_silent _ (by simpa using early), command_quiet rfl]
    trivial

/-- A RESET in the cycle of the hand-over starts mulmod over a zero modulus. -/
theorem resetAtHandOver_breaks :
    ¬∀ n, Preconditions (machine.trace .reset resetAtHandOver n) (resetAtHandOver n) := by
  intro always
  have bounds := (always 39).mulmod (by decide) (by decide +kernel) (by decide +kernel)
  exact absurd bounds.1 (by decide +kernel)

end BlindSig.Accel
