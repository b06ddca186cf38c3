import BlindSig.Accel

set_option autoImplicit false

/- What one clock edge can do to the peripheral: the bus obeys one command, then
the pipeline may override it. Later modules reason from these equations only. -/
namespace BlindSig.Accel

open Clocked

/-- The registers a command leaves, before the pipeline. -/
def State.obey (s : State) (c : Command) : State :=
  let n := { s with redmodStart := false, mulmodStart := false }
  match c with
  | .quiet => n
  | .reset => { State.reset with uRedmod := s.uRedmod, uMulmod := s.uMulmod }
  | .start =>
      { n with
        flagBusy := true, flagDone := false, flagError := false, redmodStart := true,
        cstate := .cReduce, loadOpArmed := false, loadModArmed := false }
  | .refuse =>
      { n with
        flagError := true, flagDone := true, flagBusy := false,
        loadOpArmed := false, loadModArmed := false }
  | .loadOp => { n with loadOpArmed := true }
  | .loadMod => { n with loadModArmed := true }
  | .operand value => { n with operand := value, loadOpArmed := false }
  | .modulus value => { n with modulus := value, loadModArmed := false }

variable {s : State} {i : Pins}

/-- The three blocks of the process, read through the command of the cycle. -/
theorem clock_eq (s : State) (i : Pins) :
    s.clock i = s.pipelineBlock (s.obey (s.command i)) := by
  unfold State.clock
  dsimp only
  apply congrArg s.pipelineBlock
  cases wen : i.wen with
  | false => simp [State.ctrlBlock, State.dataBlock, State.command, State.obey, wen]
  | true =>
      by_cases ctrl : i.addr = addrCtrl
      · have notOperand : ¬addrCtrl = addrOperand := by decide
        have notModulus : ¬addrCtrl = addrModulus := by decide
        simp only [State.ctrlBlock, State.dataBlock, State.command, wen, ctrl, beq_self_eq_true,
          Bool.and_self, ↓reduceIte, beq_iff_eq, notOperand, notModulus, Bool.true_and,
          Bool.and_eq_true, false_and]
        split
        · rfl
        · split
          · split <;> rfl
          · split
            · rfl
            · split <;> rfl
      · by_cases op : i.addr = addrOperand
        · have notModulus : ¬addrOperand = addrModulus := by decide
          have notCtrl : ¬addrOperand = addrCtrl := by decide
          cases armed : s.loadOpArmed <;>
            simp [State.ctrlBlock, State.dataBlock, State.command, State.obey, wen, op, armed,
              notCtrl, notModulus]
        · by_cases mod : i.addr = addrModulus
          · have notOperand : ¬addrModulus = addrOperand := by decide
            have notCtrl : ¬addrModulus = addrCtrl := by decide
            cases armed : s.loadModArmed <;>
              simp [State.ctrlBlock, State.dataBlock, State.command, State.obey, wen, mod, armed,
                notCtrl, notOperand]
          · simp [State.ctrlBlock, State.dataBlock, State.command, State.obey, wen, ctrl, op, mod]

theorem pipelineBlock_eq (s n : State) : s.pipelineBlock n =
    { n with
      cstate := if s.handsOver then .cMul else if s.completes then .cDone else n.cstate
      aReduced := if s.handsOver then s.uRedmod.result else n.aReduced
      mulmodStart := s.handsOver || n.mulmodStart
      result := if s.completes then s.uMulmod.result else n.result
      flagBusy := !s.completes && n.flagBusy
      flagDone := s.completes || n.flagDone } := by
  cases phase : s.cstate <;> cases reduced : s.uRedmod.done <;> cases multiplied : s.uMulmod.done <;>
    simp [State.pipelineBlock, State.handsOver, State.completes, phase, reduced, multiplied]

theorem edge_held (held : i.rstN = false) : s.edge i = .reset := by
  simp [State.edge, Redmod.State.edge, Mulmod.State.edge, State.redmodInput, State.mulmodInput,
    held, State.reset]

section Registers

variable (released : i.rstN = true)

include released

theorem edge_eq : s.edge i =
    { s.obey (s.command i) with
      cstate := if s.handsOver then .cMul else if s.completes then .cDone
        else (s.obey (s.command i)).cstate
      aReduced := if s.handsOver then s.uRedmod.result else (s.obey (s.command i)).aReduced
      mulmodStart := s.handsOver
      result := if s.completes then s.uMulmod.result else (s.obey (s.command i)).result
      flagBusy := !s.completes && (s.obey (s.command i)).flagBusy
      flagDone := s.completes || (s.obey (s.command i)).flagDone
      uRedmod := s.uRedmod.edge (s.redmodInput i)
      uMulmod := s.uMulmod.edge (s.mulmodInput i) } := by
  have low : (s.obey (s.command i)).mulmodStart = false := by cases s.command i <;> rfl
  simp only [State.edge, released, ↓reduceIte, clock_eq, pipelineBlock_eq, low, Bool.or_false]

theorem edge_cstate : (s.edge i).cstate =
    if s.handsOver then .cMul else if s.completes then .cDone
    else (s.obey (s.command i)).cstate := by
  rw [edge_eq released]

theorem edge_operand : (s.edge i).operand = (s.obey (s.command i)).operand := by
  rw [edge_eq released]

theorem edge_modulus : (s.edge i).modulus = (s.obey (s.command i)).modulus := by
  rw [edge_eq released]

theorem edge_result : (s.edge i).result =
    if s.completes then s.uMulmod.result else (s.obey (s.command i)).result := by
  rw [edge_eq released]

theorem edge_aReduced : (s.edge i).aReduced =
    if s.handsOver then s.uRedmod.result else (s.obey (s.command i)).aReduced := by
  rw [edge_eq released]

theorem edge_flagBusy :
    (s.edge i).flagBusy = (!s.completes && (s.obey (s.command i)).flagBusy) := by
  rw [edge_eq released]

theorem edge_flagDone :
    (s.edge i).flagDone = (s.completes || (s.obey (s.command i)).flagDone) := by
  rw [edge_eq released]

theorem edge_flagError : (s.edge i).flagError = (s.obey (s.command i)).flagError := by
  rw [edge_eq released]

theorem edge_loadOpArmed : (s.edge i).loadOpArmed = (s.obey (s.command i)).loadOpArmed := by
  rw [edge_eq released]

theorem edge_loadModArmed : (s.edge i).loadModArmed = (s.obey (s.command i)).loadModArmed := by
  rw [edge_eq released]

theorem edge_redmodStart : (s.edge i).redmodStart = (s.obey (s.command i)).redmodStart := by
  rw [edge_eq released]

theorem edge_mulmodStart : (s.edge i).mulmodStart = s.handsOver := by
  rw [edge_eq released]

/-- Each instance runs on the registers of the cycle, as a bit-serial unit. -/
theorem edge_redmod : (s.edge i).uRedmod.toSerial = s.uRedmod.toSerial.edge (Redmod.datapath 32)
    ⟨s.redmodStart, s.modulus, s.operand⟩ :=
  Redmod.toSerial_edge s.uRedmod (s.redmodInput i) released

theorem edge_mulmod : (s.edge i).uMulmod.toSerial = s.uMulmod.toSerial.edge (Mulmod.datapath 32)
    ⟨s.mulmodStart, (s.aReduced, s.modulus), s.aReduced⟩ :=
  Mulmod.toSerial_edge s.uMulmod (s.mulmodInput i) released

/-- An instance that accepts its start has the value of the latched registers due. -/
theorem redmod_due (idle : s.uRedmod.toSerial.running = false) (start : s.redmodStart = true) :
    (s.edge i).uRedmod.toSerial.Due (Redmod.datapath 32) (Redmod.value s.operand s.modulus) 32 :=
  (Redmod.circuit 32).due_start (by decide) (i := s.redmodInput i) released idle start

theorem mulmod_due (idle : s.uMulmod.toSerial.running = false) (start : s.mulmodStart = true) :
    (s.edge i).uMulmod.toSerial.Due (Mulmod.datapath 32)
      (Mulmod.value s.aReduced s.aReduced s.modulus) 32 :=
  (Mulmod.circuit 32).due_start (by decide) (i := s.mulmodInput i) released idle start

end Registers

/-- A START is obeyed only when the control is idle over a nonzero modulus. -/
theorem command_start (taken : s.command i = .start) : s.cstate = .cIdle ∧ s.modulus ≠ 0 := by
  unfold State.command at taken
  grind

theorem command_refuse (refused : s.command i = .refuse) : s.cstate = .cIdle ∧ s.modulus = 0 := by
  unfold State.command at refused
  grind

theorem command_modulus {value : Word} (written : s.command i = .modulus value) :
    s.loadModArmed = true := by
  unfold State.command at written
  grind

theorem command_reset (written : i.resetWrite) : s.command i = .reset := by
  obtain ⟨-, ⟨wen, ctrl⟩, bit⟩ := written
  simp [State.command, wen, ctrl, bit]

theorem resetWrite_of_command (released : i.rstN = true) (order : s.command i = .reset) :
    i.resetWrite := by
  unfold State.command at order
  unfold Pins.resetWrite Pins.ctrlWrite
  grind

/-- START counts only with the control idle; over a zero modulus it is refused. -/
theorem command_of_startWrite (written : i.startWrite) (idle : s.cstate = .cIdle) :
    s.command i = if s.modulus = 0 then .refuse else .start := by
  obtain ⟨-, ⟨wen, ctrl⟩, reset, start⟩ := written
  simp [State.command, wen, ctrl, reset, start, idle]

/-- Without a CTRL write only the armed data registers can change. -/
theorem command_of_not_ctrlWrite (other : ¬i.ctrlWrite) :
    s.command i = .quiet ∨ s.command i = .operand i.wdata ∨ s.command i = .modulus i.wdata := by
  unfold State.command
  unfold Pins.ctrlWrite at other
  grind

theorem command_quiet (silent : i.wen = false) : s.command i = .quiet := by
  simp [State.command, silent]

theorem handsOver_iff : s.handsOver = true ↔ s.cstate = .cReduce ∧ s.uRedmod.done = true := by
  simp [State.handsOver]

theorem completes_iff : s.completes = true ↔ s.cstate = .cMul ∧ s.uMulmod.done = true := by
  simp [State.completes]

theorem not_handsOver (idle : s.cstate ≠ .cReduce) : s.handsOver = false := by
  simp [State.handsOver, idle]

theorem not_completes (idle : s.cstate ≠ .cMul) : s.completes = false := by
  simp [State.completes, idle]

/-- What a command other than RESET and START leaves alone. -/
structure Keeps (s n : State) : Prop where
  cstate : n.cstate = s.cstate
  flagBusy : n.flagBusy = s.flagBusy
  flagDone : n.flagDone = s.flagDone
  flagError : n.flagError = s.flagError
  redmodStart : n.redmodStart = false
  aReduced : n.aReduced = s.aReduced
  result : n.result = s.result

theorem obey_cases (s : State) (i : Pins) :
    s.command i = .reset ∨ s.command i = .start ∨ s.command i = .refuse ∨
      Keeps s (s.obey (s.command i)) := by
  cases s.command i with
  | reset => exact Or.inl rfl
  | start => exact Or.inr (Or.inl rfl)
  | refuse => exact Or.inr (Or.inr (Or.inl rfl))
  | quiet => exact Or.inr (Or.inr (Or.inr ⟨rfl, rfl, rfl, rfl, rfl, rfl, rfl⟩))
  | loadOp => exact Or.inr (Or.inr (Or.inr ⟨rfl, rfl, rfl, rfl, rfl, rfl, rfl⟩))
  | loadMod => exact Or.inr (Or.inr (Or.inr ⟨rfl, rfl, rfl, rfl, rfl, rfl, rfl⟩))
  | operand value => exact Or.inr (Or.inr (Or.inr ⟨rfl, rfl, rfl, rfl, rfl, rfl, rfl⟩))
  | modulus value => exact Or.inr (Or.inr (Or.inr ⟨rfl, rfl, rfl, rfl, rfl, rfl, rfl⟩))

/-- When the control is not idle no START is taken. -/
theorem obey_keeps (active : s.cstate ≠ .cIdle) (kept : s.command i ≠ .reset) :
    Keeps s (s.obey (s.command i)) := by
  rcases obey_cases s i with order | order | order | keeps
  · exact absurd order kept
  · exact absurd (command_start order).1 active
  · exact absurd (command_refuse order).1 active
  · exact keeps

section Stages

variable (released : i.rstN = true)

include released

/-- With no operation in flight the registers are as the command leaves them. -/
theorem edge_resting (reduce : s.cstate ≠ .cReduce) (mul : s.cstate ≠ .cMul) : s.edge i =
    { s.obey (s.command i) with
      uRedmod := s.uRedmod.edge (s.redmodInput i)
      uMulmod := s.uMulmod.edge (s.mulmodInput i) } := by
  rw [edge_eq released, not_handsOver reduce, not_completes mul]
  cases s.command i <;> rfl

theorem redmod_quiet_edge (quiet : s.uRedmod.toSerial.Quiet) (low : s.redmodStart = false) :
    (s.edge i).uRedmod.toSerial.Quiet := by
  rw [edge_redmod released]
  exact quiet.edge low

theorem mulmod_quiet_edge (quiet : s.uMulmod.toSerial.Quiet) (low : s.mulmodStart = false) :
    (s.edge i).uMulmod.toSerial.Quiet := by
  rw [edge_mulmod released]
  exact quiet.edge low

end Stages

/-- The control reduces after an edge because it has just been started or
because it was reducing and nothing stopped it. -/
theorem reducing_edge_inv (released : i.rstN = true) (phase : (s.edge i).cstate = .cReduce) :
    s.handsOver = false ∧
      (s.command i = .start ∨ s.cstate = .cReduce ∧ s.command i ≠ .reset) := by
  rw [edge_cstate released] at phase
  cases handsOver : s.handsOver with
  | true => simp [handsOver] at phase
  | false =>
      refine ⟨rfl, ?_⟩
      cases completes : s.completes with
      | true => simp [handsOver, completes] at phase
      | false =>
          simp only [handsOver, completes, Bool.false_eq_true, ↓reduceIte] at phase
          rcases obey_cases s i with order | order | order | keeps
          · simp [order, State.obey, State.reset] at phase
          · exact Or.inl order
          · have idle := (command_refuse order).1
            simp [order, State.obey, idle] at phase
          · refine Or.inr ⟨keeps.cstate.symm.trans phase, fun order => ?_⟩
            simp [order, State.obey, State.reset] at phase

/-- The control multiplies because the reduction has just reported or because
it was multiplying and nothing stopped it. -/
theorem multiplying_edge_inv (released : i.rstN = true) (phase : (s.edge i).cstate = .cMul) :
    s.handsOver = true ∨ s.cstate = .cMul ∧ s.completes = false ∧ s.command i ≠ .reset := by
  rw [edge_cstate released] at phase
  cases handsOver : s.handsOver with
  | true => exact Or.inl rfl
  | false =>
      right
      cases completes : s.completes with
      | true => simp [handsOver, completes] at phase
      | false =>
          simp only [handsOver, completes, Bool.false_eq_true, ↓reduceIte] at phase
          rcases obey_cases s i with order | order | order | keeps
          · simp [order, State.obey, State.reset] at phase
          · simp [order, State.obey] at phase
          · have idle := (command_refuse order).1
            simp [order, State.obey, idle] at phase
          · refine ⟨keeps.cstate.symm.trans phase, rfl, fun order => ?_⟩
            simp [order, State.obey, State.reset] at phase

end BlindSig.Accel
