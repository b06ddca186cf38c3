import BlindSig.AccelControl
import BlindSig.MulmodProduct
import BlindSig.RedmodRemainder

set_option autoImplicit false

namespace BlindSig.Accel

open Clocked

/-- The control idle and both instances at rest: a START counts at once. -/
structure Ready (s : State) : Prop where
  cstate : s.cstate = .cIdle
  redmodStart : s.redmodStart = false
  mulmodStart : s.mulmodStart = false
  redmod : s.uRedmod.toSerial.Quiet
  mulmod : s.uMulmod.toSerial.Quiet

/-- STATUS shows BUSY and nothing else. -/
structure BusyOnly (s : State) : Prop where
  flagBusy : s.flagBusy = true
  flagDone : s.flagDone = false
  flagError : s.flagError = false

/-- START has been obeyed, redmod is about to latch `x` and `m`. -/
structure Requested (x m : Word) (s : State) : Prop where
  cstate : s.cstate = .cReduce
  flags : BusyOnly s
  redmodStart : s.redmodStart = true
  mulmodStart : s.mulmodStart = false
  operand : s.operand = x
  modulus : s.modulus = m
  unarmed : s.loadModArmed = false
  redmod : s.uRedmod.toSerial.Quiet
  mulmod : s.uMulmod.toSerial.Quiet

/-- redmod will report `a` in `n` cycles. -/
structure Reducing (a : Word) (n : ℕ) (s : State) : Prop where
  cstate : s.cstate = .cReduce
  flags : BusyOnly s
  redmodStart : s.redmodStart = false
  mulmodStart : s.mulmodStart = false
  redmod : s.uRedmod.toSerial.Due (Redmod.datapath 32) a n
  mulmod : s.uMulmod.toSerial.Quiet

/-- mulmod is about to latch `a` twice and the modulus register. -/
structure Handed (a : Word) (s : State) : Prop where
  cstate : s.cstate = .cMul
  flags : BusyOnly s
  redmodStart : s.redmodStart = false
  mulmodStart : s.mulmodStart = true
  aReduced : s.aReduced = a
  redmod : s.uRedmod.toSerial.Quiet
  mulmod : s.uMulmod.toSerial.Quiet

/-- mulmod will report `v` in `n` cycles. -/
structure Multiplying (v : Word) (n : ℕ) (s : State) : Prop where
  cstate : s.cstate = .cMul
  flags : BusyOnly s
  redmodStart : s.redmodStart = false
  mulmodStart : s.mulmodStart = false
  redmod : s.uRedmod.toSerial.Quiet
  mulmod : s.uMulmod.toSerial.Due (Mulmod.datapath 32) v n

/-- The outcome `v` stands. -/
structure Finished (v : Word) (s : State) : Prop where
  cstate : s.cstate = .cDone
  flagBusy : s.flagBusy = false
  flagDone : s.flagDone = true
  flagError : s.flagError = false
  result : s.result = v
  redmodStart : s.redmodStart = false
  mulmodStart : s.mulmodStart = false
  redmod : s.uRedmod.toSerial.Quiet
  mulmod : s.uMulmod.toSerial.Quiet

variable {s : State} {i : Pins} {x m a v : Word} {n : ℕ}

/-- The commands that remain when the control is not idle and RESET is not
written. A START then falls through to the LOAD bits. -/
theorem command_in_flight (released : i.rstN = true) (calm : ¬i.resetWrite)
    (active : s.cstate ≠ .cIdle) :
    s.command i = .quiet ∨ s.command i = .loadOp ∨ s.command i = .loadMod ∨
      (∃ value, s.command i = .operand value) ∨ ∃ value, s.command i = .modulus value := by
  have reset : s.command i ≠ .reset := fun order => calm (resetWrite_of_command released order)
  have start := @command_start s i
  have refuse := @command_refuse s i
  cases order : s.command i <;> simp_all

/-- Such commands touch the operand, the modulus and the armed flags only. -/
theorem obey_in_flight (released : i.rstN = true) (calm : ¬i.resetWrite)
    (active : s.cstate ≠ .cIdle) : Keeps s (s.obey (s.command i)) :=
  obey_keeps active fun order => calm (resetWrite_of_command released order)

theorem Ready.edge_start (ready : Ready s) (written : i.startWrite) (nonzero : s.modulus ≠ 0) :
    Requested s.operand s.modulus (s.edge i) := by
  have released := written.1
  have order : s.command i = .start := by
    rw [command_of_startWrite written ready.cstate, if_neg nonzero]
  have redmod := redmod_quiet_edge released ready.redmod ready.redmodStart
  have mulmod := mulmod_quiet_edge released ready.mulmod ready.mulmodStart
  rw [edge_resting released (by simp [ready.cstate]) (by simp [ready.cstate]), order] at *
  exact ⟨rfl, ⟨rfl, rfl, rfl⟩, rfl, rfl, rfl, rfl, rfl, redmod, mulmod⟩

section Calm

variable (released : i.rstN = true) (calm : ¬i.resetWrite)

include released calm

/-- What every edge of an operation in flight does to the control. -/
theorem flight_edge (active : s.cstate ≠ .cIdle) (flags : BusyOnly s)
    (waiting : s.completes = false) :
    (s.edge i).cstate = (if s.handsOver then .cMul else s.cstate) ∧ BusyOnly (s.edge i) ∧
      (s.edge i).redmodStart = false ∧ (s.edge i).mulmodStart = s.handsOver := by
  obtain ⟨cstate, busy, done, error, start, -, -⟩ := obey_in_flight released calm active
  refine ⟨?_, ⟨?_, ?_, ?_⟩, ?_, edge_mulmodStart released⟩
  · rw [edge_cstate released, waiting, cstate, if_neg Bool.false_ne_true]
  · rw [edge_flagBusy released, waiting, busy, flags.flagBusy]
    rfl
  · rw [edge_flagDone released, waiting, done, flags.flagDone]
    rfl
  · rw [edge_flagError released, error, flags.flagError]
  · rw [edge_redmodStart released, start]

/-- While redmod works for the control and has not reported yet. -/
theorem reducing_stays (phase : s.cstate = .cReduce) (flags : BusyOnly s)
    (low : s.uRedmod.done = false) :
    (s.edge i).cstate = .cReduce ∧ BusyOnly (s.edge i) ∧ (s.edge i).redmodStart = false ∧
      (s.edge i).mulmodStart = false := by
  have hands : s.handsOver = false := by simp [State.handsOver, low]
  have next := flight_edge released calm (by simp [phase]) flags (not_completes (by simp [phase]))
  rwa [hands, if_neg Bool.false_ne_true, phase] at next

/-- While mulmod works for the control and has not reported yet. -/
theorem multiplying_stays (phase : s.cstate = .cMul) (flags : BusyOnly s)
    (low : s.uMulmod.done = false) :
    (s.edge i).cstate = .cMul ∧ BusyOnly (s.edge i) ∧ (s.edge i).redmodStart = false ∧
      (s.edge i).mulmodStart = false := by
  have waiting : s.completes = false := by simp [State.completes, low]
  have next := flight_edge released calm (by simp [phase]) flags waiting
  rwa [not_handsOver (by simp [phase]), if_neg Bool.false_ne_true, phase] at next

theorem Requested.edge (stage : Requested x m s) :
    Reducing (Redmod.value x m) 32 (s.edge i) := by
  obtain ⟨cstate, flags, start, handed⟩ :=
    reducing_stays released calm stage.cstate stage.flags stage.redmod.low
  refine ⟨cstate, flags, start, handed, ?_, mulmod_quiet_edge released stage.mulmod stage.mulmodStart⟩
  rw [← stage.operand, ← stage.modulus]
  exact redmod_due released stage.redmod.idle stage.redmodStart

theorem Reducing.edge (stage : Reducing a (n + 1) s) : Reducing a n (s.edge i) := by
  obtain ⟨cstate, flags, start, handed⟩ :=
    reducing_stays released calm stage.cstate stage.flags stage.redmod.2.2.1
  refine ⟨cstate, flags, start, handed, ?_, mulmod_quiet_edge released stage.mulmod stage.mulmodStart⟩
  rw [edge_redmod released]
  exact stage.redmod.edge _

theorem Reducing.edge_done (stage : Reducing a 0 s) : Handed a (s.edge i) := by
  have hands : s.handsOver = true := handsOver_iff.mpr ⟨stage.cstate, stage.redmod.2.1⟩
  obtain ⟨cstate, flags, start, handed⟩ := flight_edge released calm (by simp [stage.cstate])
    stage.flags (not_completes (by simp [stage.cstate]))
  rw [hands] at cstate handed
  refine ⟨cstate, flags, start, handed, ?_, ?_,
    mulmod_quiet_edge released stage.mulmod stage.mulmodStart⟩
  · rw [edge_aReduced released, hands, if_pos rfl]
    exact stage.redmod.2.2
  · rw [edge_redmod released]
    exact stage.redmod.quiet stage.redmodStart

theorem Handed.edge (stage : Handed a s) :
    Multiplying (Mulmod.value a a s.modulus) 32 (s.edge i) := by
  obtain ⟨cstate, flags, start, handed⟩ :=
    multiplying_stays released calm stage.cstate stage.flags stage.mulmod.low
  refine ⟨cstate, flags, start, handed, redmod_quiet_edge released stage.redmod stage.redmodStart, ?_⟩
  rw [← stage.aReduced]
  exact mulmod_due released stage.mulmod.idle stage.mulmodStart

theorem Multiplying.edge (stage : Multiplying v (n + 1) s) : Multiplying v n (s.edge i) := by
  obtain ⟨cstate, flags, start, handed⟩ :=
    multiplying_stays released calm stage.cstate stage.flags stage.mulmod.2.2.1
  refine ⟨cstate, flags, start, handed, redmod_quiet_edge released stage.redmod stage.redmodStart, ?_⟩
  rw [edge_mulmod released]
  exact stage.mulmod.edge _

theorem Multiplying.edge_done (stage : Multiplying v 0 s) : Finished v (s.edge i) := by
  have hands := not_handsOver (s := s) (by simp [stage.cstate])
  have completes : s.completes = true := completes_iff.mpr ⟨stage.cstate, stage.mulmod.2.1⟩
  have keeps := obey_in_flight released calm (s := s) (by simp [stage.cstate])
  constructor
  · rw [edge_cstate released, hands, completes]; rfl
  · rw [edge_flagBusy released, completes]; rfl
  · rw [edge_flagDone released, completes]; rfl
  · rw [edge_flagError released, keeps.flagError, stage.flags.flagError]
  · rw [edge_result released, completes, if_pos rfl]; exact stage.mulmod.2.2
  · rw [edge_redmodStart released, keeps.redmodStart]
  · rw [edge_mulmodStart released, hands]
  · exact redmod_quiet_edge released stage.redmod stage.redmodStart
  · rw [edge_mulmod released]; exact stage.mulmod.quiet stage.mulmodStart

end Calm

/-- After edge 0 the bus neither resets the peripheral nor writes RESET. -/
def CalmAfterStart (ins : ℕ → Pins) : Prop :=
  ∀ n, 0 < n → (ins n).rstN = true ∧ ¬(ins n).resetWrite

variable {ins : ℕ → Pins} {t : ℕ}

section Stages

variable (calm : ∀ k, t ≤ k → (ins k).rstN = true ∧ ¬(ins k).resetWrite)

include calm

theorem Reducing.trace (stage : Reducing a n (machine.trace s ins t)) (k : ℕ) (inside : k ≤ n) :
    Reducing a (n - k) (machine.trace s ins (t + k)) := by
  induction k with
  | zero => exact stage
  | succ k ih =>
      have now := ih (by omega)
      rw [show n - k = n - (k + 1) + 1 by omega] at now
      exact now.edge (calm (t + k) (by omega)).1 (calm (t + k) (by omega)).2

theorem Multiplying.trace (stage : Multiplying v n (machine.trace s ins t)) (k : ℕ)
    (inside : k ≤ n) : Multiplying v (n - k) (machine.trace s ins (t + k)) := by
  induction k with
  | zero => exact stage
  | succ k ih =>
      have now := ih (by omega)
      rw [show n - k = n - (k + 1) + 1 by omega] at now
      exact now.edge (calm (t + k) (by omega)).1 (calm (t + k) (by omega)).2

end Stages

section Run

variable (ready : Ready s) (nonzero : s.modulus ≠ 0) (start : (ins 0).startWrite)
  (calm : CalmAfterStart ins)

include ready nonzero start calm

/-- The whole course of an accepted operation. The modulus counts twice: as
held at the START, and as held when mulmod latches it. -/
theorem trace_flight :
    (∀ n, 0 < n → n ≤ 68 → BusyOnly (machine.trace s ins n)) ∧
      Finished (Mulmod.value (Redmod.value s.operand s.modulus) (Redmod.value s.operand s.modulus)
        (machine.trace s ins 35).modulus) (machine.trace s ins 69) := by
  have requested : Requested s.operand s.modulus (machine.trace s ins 1) :=
    ready.edge_start start nonzero
  have step : ∀ k, 0 < k → (ins k).rstN = true ∧ ¬(ins k).resetWrite := calm
  have reducing := requested.edge (step 1 (by omega)).1 (step 1 (by omega)).2
  have reduced := Reducing.trace (t := 2) (fun k later => step k (by omega)) reducing
  have handed := (reduced 32 (Nat.le_refl 32)).edge_done (step 34 (by omega)).1 (step 34 (by omega)).2
  have multiplying := handed.edge (step 35 (by omega)).1 (step 35 (by omega)).2
  have multiplied := Multiplying.trace (t := 36) (fun k later => step k (by omega)) multiplying
  have finished :=
    (multiplied 32 (Nat.le_refl 32)).edge_done (step 68 (by omega)).1 (step 68 (by omega)).2
  refine ⟨fun n positive inside => ?_, finished⟩
  rcases Nat.lt_or_ge n 2 with first | later
  · rw [show n = 1 by omega]
    exact requested.flags
  rcases Nat.lt_or_ge n 35 with early | later
  · rw [show n = 2 + (n - 2) by omega]
    exact (reduced (n - 2) (by omega)).flags
  rcases Nat.lt_or_ge n 36 with now | later
  · rw [show n = 35 by omega]
    exact handed.flags
  · rw [show n = 36 + (n - 36) by omega]
    exact (multiplied (n - 36) (by omega)).flags

end Run

end BlindSig.Accel
