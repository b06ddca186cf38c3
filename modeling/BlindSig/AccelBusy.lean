import BlindSig.AccelControl

set_option autoImplicit false

namespace BlindSig.Accel

open Clocked

/-- Edges until BUSY falls, if the bus keeps out of the way. -/
def State.rank (s : State) : ℕ :=
  match s.cstate with
  | .cReduce => s.uRedmod.toSerial.wait + 34
  | .cMul => s.uMulmod.toSerial.wait
  | _ => 0

variable {s : State} {i : Pins}

theorem Control.of_reachable (reached : machine.Reachable s) : Control s :=
  reached.invariant Control control_reset fun _ i control => control_edge control i

theorem Control.trace (control : Control s) (ins : ℕ → Pins) (n : ℕ) :
    Control (machine.trace s ins n) := by
  induction n with
  | zero => exact control
  | succ n ih => exact control_edge ih (ins n)

theorem Control.rank_le (control : Control s) : s.rank ≤ 68 := by
  have redmod := control.redmodFits.wait_le
  have mulmod := control.mulmodFits.wait_le
  unfold State.rank
  split <;> omega

theorem Control.rank_positive (control : Control s) (busy : s.flagBusy = true) : 0 < s.rank := by
  rcases (control.busy busy).1 with phase | phase <;> simp only [State.rank, phase]
  · omega
  · exact SerialUnit.wait_positive

theorem redmod_wait_edge (control : Control s) (released : i.rstN = true)
    (phase : s.cstate = .cReduce) (low : s.uRedmod.done = false) :
    (s.edge i).uRedmod.toSerial.wait + 1 = s.uRedmod.toSerial.wait := by
  have alive := (control.reducing phase).2
  rw [edge_redmod released]
  refine SerialUnit.wait_edge (by decide) (by decide) control.redmodFits low ?_
  rcases alive with start | work | pulse
  · exact Or.inr start
  · exact Or.inl work
  · simp [low] at pulse

theorem mulmod_wait_edge (control : Control s) (released : i.rstN = true)
    (phase : s.cstate = .cMul) (low : s.uMulmod.done = false) :
    (s.edge i).uMulmod.toSerial.wait + 1 = s.uMulmod.toSerial.wait := by
  have alive := control.multiplying phase
  rw [edge_mulmod released]
  refine SerialUnit.wait_edge (by decide) (by decide) control.mulmodFits low ?_
  rcases alive with start | work | pulse
  · exact Or.inr start
  · exact Or.inl work
  · simp [low] at pulse

/-- While BUSY stays up every edge brings its end nearer. A start pulse that a
busy unit ignores only brings the end nearer still. -/
theorem Control.rank_edge (control : Control s) (busy : s.flagBusy = true)
    (still : (s.edge i).flagBusy = true) : (s.edge i).rank < s.rank := by
  cases released : i.rstN with
  | false => rw [edge_held released] at still; cases still
  | true =>
      have next := control_edge control i
      rw [edge_flagBusy released, Bool.and_eq_true, Bool.not_eq_true'] at still
      obtain ⟨completes, still⟩ := still
      have kept : s.command i ≠ .reset := by
        intro order
        simp [order, State.obey, State.reset] at still
      have phase' := edge_cstate (s := s) (i := i) released
      rcases (control.busy busy).1 with phase | phase
      · have keeps := obey_keeps (i := i) (by simp [phase]) kept
        cases done : s.uRedmod.done with
        | true =>
            -- the pulse is consumed and the multiplication requested
            have hands : s.handsOver = true := handsOver_iff.mpr ⟨phase, done⟩
            have mulmod := next.mulmodFits.wait_le
            have positive := SerialUnit.wait_positive (u := s.uRedmod.toSerial)
            rw [hands, if_pos rfl] at phase'
            simp only [State.rank, phase, phase']
            omega
        | false =>
            have hands : s.handsOver = false := by simp [State.handsOver, done]
            have less := redmod_wait_edge control released phase done
            rw [hands, completes, keeps.cstate, phase] at phase'
            simp only [State.rank, phase, phase', Bool.false_eq_true, ↓reduceIte]
            omega
      · have keeps := obey_keeps (i := i) (by simp [phase]) kept
        have done : s.uMulmod.done = false := by simpa [State.completes, phase] using completes
        have less := mulmod_wait_edge control released phase done
        rw [not_handsOver (by simp [phase]), completes, keeps.cstate, phase] at phase'
        simp only [State.rank, phase, phase', Bool.false_eq_true, ↓reduceIte]
        omega

/-- From any state in working order BUSY falls within its rank. -/
theorem Control.exists_idle (control : Control s) (ins : ℕ → Pins) :
    ∃ k ≤ s.rank, (machine.trace s ins k).flagBusy = false := by
  obtain ⟨k, within, idle⟩ := exists_leave
    (fun n => (machine.trace s ins n).flagBusy = true) (fun n => (machine.trace s ins n).rank)
    (fun n busy still => (control.trace ins n).rank_edge busy still)
    (fun n busy => (control.trace ins n).rank_positive busy) 0
  rw [Nat.zero_add] at idle
  exact ⟨k, within, by simpa using idle⟩

/-- The registers a driver reads once BUSY is low, with the control behind them. -/
structure SameOutcome (s t : State) : Prop where
  cstate : t.cstate = s.cstate
  flagBusy : t.flagBusy = s.flagBusy
  flagDone : t.flagDone = s.flagDone
  flagError : t.flagError = s.flagError
  result : t.result = s.result

theorem sameOutcome_edge (rest : ¬s.inFlight) (released : i.rstN = true)
    (other : ¬i.ctrlWrite) : SameOutcome s (s.edge i) := by
  rw [edge_resting released (fun phase => rest (Or.inl phase)) (fun phase => rest (Or.inr phase))]
  rcases command_of_not_ctrlWrite other with order | order | order <;> rw [order] <;>
    exact ⟨rfl, rfl, rfl, rfl, rfl⟩

theorem sameOutcome_trace (rest : ¬s.inFlight) {ins : ℕ → Pins}
    (other : ∀ n, (ins n).rstN = true ∧ ¬(ins n).ctrlWrite) (n : ℕ) :
    SameOutcome s (machine.trace s ins n) := by
  induction n with
  | zero => exact ⟨rfl, rfl, rfl, rfl, rfl⟩
  | succ n ih =>
      have still : ¬(machine.trace s ins n).inFlight := by
        simpa only [State.inFlight, ih.cstate] using rest
      have next := sameOutcome_edge still (other n).1 (other n).2
      exact ⟨next.cstate.trans ih.cstate, next.flagBusy.trans ih.flagBusy,
        next.flagDone.trans ih.flagDone, next.flagError.trans ih.flagError,
        next.result.trans ih.result⟩

/-- BUSY is up exactly while an operation is in flight, and once it is low the
outcome stays put until the next CTRL write. -/
structure BusyFaithful (s : State) : Prop where
  inFlight : s.flagBusy = true ↔ s.inFlight
  stable : s.flagBusy = false → ∀ ins : ℕ → Pins,
    (∀ n, (ins n).rstN = true ∧ ¬(ins n).ctrlWrite) →
    ∀ n, (machine.trace s ins n).status = s.status ∧ (machine.trace s ins n).result = s.result

theorem busyFaithful_of (control : Control s) (told : s.cstate = .cMul → s.flagBusy = true) :
    BusyFaithful s := by
  have exact : s.flagBusy = true ↔ s.inFlight :=
    ⟨fun busy => (control.busy busy).1, fun flight =>
      flight.elim (fun phase => (control.reducing phase).1) told⟩
  refine ⟨exact, fun idle ins other n => ?_⟩
  have rest : ¬s.inFlight := fun flight => by simp [exact.mpr flight] at idle
  have same := sameOutcome_trace rest other n
  simp only [State.status, same.flagBusy, same.flagDone, same.flagError, same.result, and_self]

/-- Outside the one bad cycle a multiplication in flight is told by BUSY. -/
theorem told_edge (control : Control s) (told : s.cstate = .cMul → s.flagBusy = true)
    (guard : ¬(i.resetWrite ∧ s.handsOver = true)) :
    (s.edge i).cstate = .cMul → (s.edge i).flagBusy = true := by
  cases released : i.rstN with
  | false => rw [edge_held released]; intro phase; cases phase
  | true =>
      intro phase'
      rw [edge_flagBusy released]
      rcases multiplying_edge_inv released phase' with hands | ⟨phase, waiting, kept⟩
      · have phase := (handsOver_iff.mp hands).1
        have kept : s.command i ≠ .reset := fun order =>
          guard ⟨resetWrite_of_command released order, hands⟩
        have keeps := obey_keeps (i := i) (by simp [phase]) kept
        rw [not_completes (by simp [phase]), keeps.flagBusy, (control.reducing phase).1]
        rfl
      · have keeps := obey_keeps (i := i) (by simp [phase]) kept
        rw [waiting, keeps.flagBusy, told phase]
        rfl

/-- A RESET written in the cycle the reduction reports done is overridden by
the pipeline, but clears BUSY. -/
theorem not_busyFaithful_edge (written : i.resetWrite) (handsOver : s.handsOver = true) :
    ¬BusyFaithful (s.edge i) := by
  intro faithful
  have phase : (s.edge i).cstate = .cMul := by
    rw [edge_cstate written.1, handsOver, if_pos rfl]
  have idle : (s.edge i).flagBusy = false := by
    rw [edge_flagBusy written.1, command_reset written]
    simp [State.obey, State.reset]
  simp [faithful.inFlight.mpr (Or.inr phase)] at idle

/-- BUSY is faithful in every state of a run exactly when no RESET write of the
run falls into a cycle in which the awaited reduction reports done. -/
theorem busyFaithful_iff (ins : ℕ → Pins) :
    (∀ n, BusyFaithful (machine.trace .reset ins n)) ↔
      ∀ n, ¬((ins n).resetWrite ∧ (machine.trace .reset ins n).handsOver = true) := by
  constructor
  · intro faithful n bad
    exact not_busyFaithful_edge bad.1 bad.2 (faithful (n + 1))
  · intro guard n
    have both := machine.trace_guarded
      (fun s => Control s ∧ (s.cstate = .cMul → s.flagBusy = true))
      (fun s i inv pass => ⟨control_edge inv.1 i, told_edge inv.1 inv.2 pass⟩)
      ⟨control_reset, fun phase => by cases phase⟩ guard n
    exact busyFaithful_of both.1 both.2

/-- 10 and 7 are loaded and started, and RESET is written 34 cycles later. -/
def resetAtHandOver : ℕ → Pins := script
  ([busWrite addrCtrl 8, busWrite addrModulus 7, busWrite addrCtrl 4, busWrite addrOperand 10,
    busWrite addrCtrl 1] ++ List.replicate 33 busIdle ++ [busWrite addrCtrl 2])

theorem resetAtHandOver_not_faithful :
    ¬∀ n, BusyFaithful (machine.trace .reset resetAtHandOver n) := by
  intro faithful
  have bad : (resetAtHandOver 38).resetWrite ∧
      (machine.trace .reset resetAtHandOver 38).handsOver = true := by decide +kernel
  exact not_busyFaithful_edge bad.1 bad.2 (faithful 39)

/-- From every reachable state BUSY falls within 68 edges whatever the bus does. -/
theorem busy_falls (reached : machine.Reachable s) (ins : ℕ → Pins) :
    ∃ k < 69, (machine.trace s ins k).flagBusy = false := by
  have control := Control.of_reachable reached
  obtain ⟨k, within, idle⟩ := control.exists_idle ins
  have bound := control.rank_le
  exact ⟨k, by omega, idle⟩

end BlindSig.Accel
