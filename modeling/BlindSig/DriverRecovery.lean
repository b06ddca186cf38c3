import BlindSig.DriverReset

set_option autoImplicit false

namespace BlindSig.Driver

open Clocked Accel

variable {s : State} {i : Pins}

/-- Edges until neither an operation nor an abandoned reduction is under way,
if none is started. -/
def tail (s : State) : ℕ :=
  match s.cstate with
  | .cReduce => s.uRedmod.toSerial.wait + 34
  | .cMul => max s.uMulmod.toSerial.wait s.uRedmod.toSerial.left
  | _ => s.uRedmod.toSerial.left

theorem left_le (control : Control s) : s.uRedmod.toSerial.left ≤ 32 :=
  control.redmodFits.timer.within

theorem tail_le (control : Control s) : tail s ≤ 68 := by
  have redmod := control.redmodFits.wait_le
  have mulmod := control.mulmodFits.wait_le
  have left := left_le control
  unfold tail
  split <;> omega

/-- A reduction that nothing starts afresh runs out. -/
theorem left_edge (control : Control s) (released : i.rstN = true) (low : s.redmodStart = false) :
    (s.edge i).uRedmod.toSerial.left ≤ s.uRedmod.toSerial.left - 1 := by
  have timing := congrArg Countdown.left (SerialUnit.timer_edge (D := Redmod.datapath 32)
    (by decide) (by decide) control.redmodFits ⟨s.redmodStart, s.modulus, s.operand⟩)
  rw [← edge_redmod released] at timing
  change (s.edge i).uRedmod.toSerial.left =
    (s.uRedmod.toSerial.timer.edge 32 s.redmodStart).left at timing
  rw [timing, low]
  unfold Countdown.edge
  split
  · exact Nat.zero_le _
  · exact Nat.le_refl _

/-- Every edge brings the end nearer, a RESET among them included. -/
theorem tail_edge (control : Control s) (released : i.rstN = true) (unstarted : s.command i ≠ .start) :
    tail (s.edge i) ≤ tail s - 1 := by
  have next := control_edge control i
  have left' := left_le next
  have runsOut : s.cstate ≠ .cReduce →
      (s.edge i).uRedmod.toSerial.left ≤ s.uRedmod.toSerial.left - 1 := by
    intro other
    apply left_edge control released
    apply eq_false_of_ne_true
    exact fun start => other (control.requested start).1
  have positive := SerialUnit.wait_positive (u := s.uRedmod.toSerial)
  by_cases reduces : (s.edge i).cstate = .cReduce
  · obtain ⟨hands, started | ⟨phase, -⟩⟩ := reducing_edge_inv released reduces
    · exact absurd started unstarted
    · have low : s.uRedmod.done = false := by simpa [State.handsOver, phase] using hands
      have less := redmod_wait_edge control released phase low
      simp only [tail, reduces, phase]
      omega
  · by_cases multiplies : (s.edge i).cstate = .cMul
    · rcases multiplying_edge_inv released multiplies with hands | ⟨phase, pending, -⟩
      · have mulmod := next.mulmodFits.wait_le
        simp only [tail, multiplies, (handsOver_iff.mp hands).1]
        omega
      · have low : s.uMulmod.done = false := by simpa [State.completes, phase] using pending
        have less := mulmod_wait_edge control released phase low
        have out := runsOut (by simp [phase])
        simp only [tail, multiplies, phase]
        omega
    · have rests : tail (s.edge i) = (s.edge i).uRedmod.toSerial.left := by
        cases phase : (s.edge i).cstate with
        | cReduce => exact absurd phase reduces
        | cMul => exact absurd phase multiplies
        | cIdle => simp only [tail, phase]
        | cDone => simp only [tail, phase]
      rw [rests]
      cases phase : s.cstate with
      | cReduce =>
          simp only [tail, phase]
          omega
      | cMul =>
          have out := runsOut (by simp [phase])
          simp only [tail, phase]
          omega
      | cIdle =>
          simp only [tail, phase]
          exact runsOut (by simp [phase])
      | cDone =>
          simp only [tail, phase]
          exact runsOut (by simp [phase])

theorem not_start (released : i.rstN = true) (other : ¬i.startWrite) : s.command i ≠ .start := by
  unfold State.command
  unfold Pins.startWrite Pins.ctrlWrite at other
  grind

theorem tail_trace (control : Control s) {ins : ℕ → Pins} (n : ℕ)
    (released : ∀ k < n, (ins k).rstN = true) (unstarted : ∀ k < n, ¬(ins k).startWrite) :
    tail (machine.trace s ins n) ≤ tail s - n := by
  induction n with
  | zero => exact Nat.le_refl _
  | succ n ih =>
      have before := ih (fun k earlier => released k (by omega)) fun k earlier =>
        unstarted k (by omega)
      have less := tail_edge (control.trace ins n) (released n (Nat.lt_succ_self n))
        (not_start (released n (Nat.lt_succ_self n)) (unstarted n (Nat.lt_succ_self n)))
      rw [Machine.trace_succ]
      change tail ((machine.trace s ins n).edge (ins n)) ≤ _
      omega

/-- With nothing under way a soft reset is clean. -/
theorem clean_of_tail (control : Control s) (nothing : tail s = 0) : CleanReset s := by
  have reduce : s.cstate ≠ .cReduce := by
    intro phase
    simp only [tail, phase] at nothing
    omega
  have mul : s.cstate ≠ .cMul := by
    intro phase
    have positive := SerialUnit.wait_positive (u := s.uMulmod.toSerial)
    simp only [tail, phase] at nothing
    omega
  have ended : s.uRedmod.toSerial.left = 0 := by
    cases phase : s.cstate with
    | cReduce => exact absurd phase reduce
    | cMul => exact absurd phase mul
    | cIdle => simpa only [tail, phase] using nothing
    | cDone => simpa only [tail, phase] using nothing
  have idle := control.redmodFits.running_of_left ended
  refine ⟨not_handsOver reduce, not_completes mul, ?_, ?_⟩
  · exact fun start => absurd (control.requested start).1 reduce
  · intro running
    have busy : s.uRedmod.toSerial.running = true := decide_eq_true running
    rw [idle] at busy
    cases busy

/-- The last cycle of the shortest operation, 67 cycles after its START. -/
theorem quickStart_completes : (machine.trace .reset quickStart 70).completes = true := by
  decide +kernel

/-- After 68 cycles without a START, whatever else they do, a RESET is as good as
a hardware reset; after fewer it need not be. -/
theorem recovers_iff (n : ℕ) : (∀ (s : State) (ins : ℕ → Pins), machine.Reachable s →
      (∀ k < n, (ins k).rstN = true) → (∀ k < n, ¬(ins k).startWrite) → (ins n).resetWrite →
      SoftResetIsHard (machine.trace s ins n) (ins n)) ↔ 68 ≤ n := by
  constructor
  · intro recovers
    apply Nat.le_of_not_lt
    intro few
    let silent : ℕ → Pins := fun k => if k < n then busIdle else busWrite addrCtrl 2
    have before : ∀ k < n, silent k = busIdle := fun k early => if_pos early
    have written : (silent n).resetWrite := by
      simp only [silent, Nat.lt_irrefl, ↓reduceIte]
      decide
    have same : machine.trace (machine.trace .reset quickStart (70 - n)) silent n =
        machine.trace .reset quickStart 70 := by
      rw [← Nat.sub_add_cancel (show n ≤ 70 by omega), Machine.trace_add,
        Nat.sub_add_cancel (show n ≤ 70 by omega)]
      apply Machine.trace_agree
      intro k early
      rw [before k early, quickStart_silent (by omega)]
    have reached : machine.Reachable (machine.trace .reset quickStart (70 - n)) :=
      Machine.Reachable.reset.trace _ _
    have hard := recovers _ silent reached (fun k early => by rw [before k early]; rfl)
      (fun k early => by rw [before k early]; decide) written
    have clean := (indist_reset_iff (reached.trace silent n) written).mp hard.reads
    have completes := clean.noCompletion
    rw [same, quickStart_completes] at completes
    cases completes
  · intro many s ins reached released unstarted written
    have control := Control.of_reachable reached
    have ended : tail (machine.trace s ins n) = 0 := by
      have less := tail_trace control n released unstarted
      have most := tail_le control
      omega
    have clean := clean_of_tail (control.trace ins n) ended
    have reached' := reached.trace ins n
    refine ⟨(indist_reset_iff reached' written).mpr clean, ?_⟩
    intro polls enough gap k prompt modulus operand
    exact compute_of_indist ((indist_reset_iff reached' (by decide)).mpr clean) enough prompt
      modulus operand

end BlindSig.Driver
