import BlindSig.AccelStep
import BlindSig.ClockedArmed

set_option autoImplicit false

namespace BlindSig.Accel

open Clocked

/-- The bus cycle is a START that the control takes, be it refused or not. -/
def State.takesStart (s : State) (i : Pins) : Prop :=
  i.ctrlWrite ∧ i.wdata.getLsbD ctrlReset = false ∧ i.wdata.getLsbD ctrlStart = true ∧
    s.cstate = .cIdle

/-- RESET comes first, then a START that is taken, then LOAD_OP. -/
def State.loadOpCommand (s : State) (i : Pins) : Prop :=
  i.ctrlWrite ∧ i.wdata.getLsbD ctrlReset = false ∧ ¬s.takesStart i ∧
    i.wdata.getLsbD ctrlLoadOp = true

/-- LOAD_MOD comes last. -/
def State.loadModCommand (s : State) (i : Pins) : Prop :=
  i.ctrlWrite ∧ i.wdata.getLsbD ctrlReset = false ∧ ¬s.takesStart i ∧
    i.wdata.getLsbD ctrlLoadOp = false ∧ i.wdata.getLsbD ctrlLoadMod = true

/-- A write to the register at `addr`, sampled with reset released. -/
def Pins.dataWrite (i : Pins) (addr : BitVec 5) : Prop :=
  i.rstN = true ∧ i.wen = true ∧ i.addr = addr

instance (s : State) (i : Pins) : Decidable (s.takesStart i) := inferInstanceAs (Decidable (_ ∧ _))

instance (s : State) (i : Pins) : Decidable (s.loadOpCommand i) :=
  inferInstanceAs (Decidable (_ ∧ _))

instance (s : State) (i : Pins) : Decidable (s.loadModCommand i) :=
  inferInstanceAs (Decidable (_ ∧ _))

instance (i : Pins) (addr : BitVec 5) : Decidable (i.dataWrite addr) :=
  inferInstanceAs (Decidable (_ ∧ _))

/-- What a cycle means to the data register at `addr` armed by `arms`. -/
def State.portEvent (s : State) (i : Pins) (arms : Prop) [Decidable arms] (addr : BitVec 5) :
    Armed.Event Word :=
  if i.rstN = false ∨ i.resetWrite then .clear
  else if s.takesStart i then .disarm
  else if arms then .arm
  else if i.dataWrite addr then .write i.wdata
  else .other

def State.operandEvent (s : State) (i : Pins) : Armed.Event Word :=
  s.portEvent i (s.loadOpCommand i) addrOperand

def State.modulusEvent (s : State) (i : Pins) : Armed.Event Word :=
  s.portEvent i (s.loadModCommand i) addrModulus

def State.armedOperand (s : State) : Armed.Port Word := ⟨s.loadOpArmed, s.operand⟩

def State.armedModulus (s : State) : Armed.Port Word := ⟨s.loadModArmed, s.modulus⟩

variable {s : State} {i : Pins}

section Released

variable {arms : Prop} [Decidable arms] {addr : BitVec 5} (released : i.rstN = true)

include released

/-- A CTRL write is none of the data writes. -/
theorem portEvent_ctrl (ctrl : i.ctrlWrite) (other : addr ≠ addrCtrl) {bit : Prop} [Decidable bit]
    (falls : i.wdata.getLsbD ctrlReset = false → ¬s.takesStart i → (arms ↔ bit)) :
    s.portEvent i arms addr =
      if i.wdata.getLsbD ctrlReset then .clear
      else if i.wdata.getLsbD ctrlStart ∧ s.cstate = .cIdle then .disarm
      else if bit then .arm
      else .other := by
  have notData : ¬i.dataWrite addr := fun write => other (write.2.2.symm.trans ctrl.2)
  unfold State.portEvent Pins.resetWrite
  by_cases live : i.wdata.getLsbD ctrlReset = false
  · have takes : s.takesStart i ↔ i.wdata.getLsbD ctrlStart = true ∧ s.cstate = .cIdle :=
      ⟨fun takes => takes.2.2, fun takes => ⟨ctrl, live, takes⟩⟩
    by_cases taken : s.takesStart i
    · simp [released, live, taken, takes.mp taken]
    · simp [released, live, taken, falls live taken, takes.not.mp taken, notData]
  · simp [released, ctrl, live]

/-- Any other cycle is a data write or nothing. -/
theorem portEvent_data (ctrl : ¬i.ctrlWrite) (unarmed : ¬arms) : s.portEvent i arms addr =
    if i.wen = true ∧ i.addr = addr then .write i.wdata else .other := by
  have calm : ¬i.resetWrite := fun written => ctrl written.2.1
  have untaken : ¬s.takesStart i := fun takes => ctrl takes.1
  simp [State.portEvent, Pins.dataWrite, released, calm, untaken, unarmed]

end Released

/-- The command of a CTRL write, in the order of its bits. -/
theorem command_ctrl (ctrl : i.ctrlWrite) : s.command i =
    if i.wdata.getLsbD ctrlReset then .reset
    else if i.wdata.getLsbD ctrlStart ∧ s.cstate = .cIdle then
      if s.modulus = 0 then .refuse else .start
    else if i.wdata.getLsbD ctrlLoadOp then .loadOp
    else if i.wdata.getLsbD ctrlLoadMod then .loadMod
    else .quiet := by
  simp [State.command, ctrl.1, ctrl.2]

theorem command_data (ctrl : ¬i.ctrlWrite) : s.command i =
    if i.wen = true ∧ i.addr = addrOperand then
      if s.loadOpArmed then .operand i.wdata else .quiet
    else if i.wen = true ∧ i.addr = addrModulus then
      if s.loadModArmed then .modulus i.wdata else .quiet
    else .quiet := by
  have notModulus : addrOperand ≠ addrModulus := by decide
  unfold State.command
  unfold Pins.ctrlWrite at ctrl
  grind

/-- OPERAND and its arm flag see nothing of the bus but their events. -/
theorem armedOperand_edge (s : State) (i : Pins) :
    (s.edge i).armedOperand = s.armedOperand.edge 0 (s.operandEvent i) := by
  cases released : i.rstN with
  | false =>
      rw [edge_held released, State.operandEvent, State.portEvent, if_pos (Or.inl released)]
      rfl
  | true =>
      rw [State.armedOperand, edge_loadOpArmed released, edge_operand released, State.operandEvent]
      by_cases ctrl : i.ctrlWrite
      · have falls : i.wdata.getLsbD ctrlReset = false → ¬s.takesStart i →
            (s.loadOpCommand i ↔ i.wdata.getLsbD ctrlLoadOp = true) := fun live untaken =>
          ⟨fun arms => arms.2.2.2, fun bit => ⟨ctrl, live, untaken, bit⟩⟩
        rw [portEvent_ctrl released ctrl (by decide) falls, command_ctrl ctrl]
        split_ifs <;> rfl
      · rw [portEvent_data released ctrl (fun arms => ctrl arms.1), command_data ctrl]
        split
        · cases armed : s.loadOpArmed <;>
            simp [State.obey, State.armedOperand, Armed.Port.edge, armed]
        · split_ifs <;> rfl

/-- So do MODULUS and its arm flag. -/
theorem armedModulus_edge (s : State) (i : Pins) :
    (s.edge i).armedModulus = s.armedModulus.edge 0 (s.modulusEvent i) := by
  cases released : i.rstN with
  | false =>
      rw [edge_held released, State.modulusEvent, State.portEvent, if_pos (Or.inl released)]
      rfl
  | true =>
      rw [State.armedModulus, edge_loadModArmed released, edge_modulus released, State.modulusEvent]
      by_cases ctrl : i.ctrlWrite
      · have falls : i.wdata.getLsbD ctrlReset = false → ¬s.takesStart i →
            (s.loadModCommand i ↔ i.wdata.getLsbD ctrlLoadOp = false ∧
              i.wdata.getLsbD ctrlLoadMod = true) := fun live untaken =>
          ⟨fun arms => arms.2.2.2, fun bits => ⟨ctrl, live, untaken, bits⟩⟩
        rw [portEvent_ctrl released ctrl (by decide) falls, command_ctrl ctrl]
        cases i.wdata.getLsbD ctrlLoadOp with
        | false =>
            simp only [true_and, Bool.false_eq_true, ↓reduceIte]
            split_ifs <;> rfl
        | true =>
            simp only [Bool.true_eq_false, false_and, ↓reduceIte]
            split_ifs <;> rfl
      · rw [portEvent_data released ctrl (fun arms => ctrl arms.1), command_data ctrl]
        by_cases operand : i.wen = true ∧ i.addr = addrOperand
        · have other : ¬(i.wen = true ∧ i.addr = addrModulus) := fun modulus =>
            absurd (operand.2.symm.trans modulus.2) (by decide)
          rw [if_pos operand, if_neg other]
          split_ifs <;> rfl
        · rw [if_neg operand]
          split
          · cases armed : s.loadModArmed <;>
              simp [State.obey, State.armedModulus, Armed.Port.edge, armed]
          · rfl

/-- A write to one of the two registers is no event to the other. -/
theorem portEvent_other {arms : Prop} [Decidable arms] {addr addr' : BitVec 5}
    (write : i.dataWrite addr) (apart : addr ≠ addr') (data : addr ≠ addrCtrl)
    (commands : arms → i.ctrlWrite) : s.portEvent i arms addr' = .other := by
  have ctrl : ¬i.ctrlWrite := fun ctrl => data (write.2.2.symm.trans ctrl.2)
  rw [portEvent_data write.1 ctrl (fun armed => ctrl (commands armed)), if_neg]
  exact fun other => apart (write.2.2.symm.trans other.2)

/-- Both registers keep the protocol in every run from hardware reset, and a
write to one of them leaves the other and its arm flag alone. -/
theorem armed_registers (ins : ℕ → Pins) :
    Armed.Protocol (fun n => (machine.trace .reset ins n).operandEvent (ins n)) 0
      (fun n => (machine.trace .reset ins n).operand)
      (fun n => (machine.trace .reset ins n).loadOpArmed) ∧
    Armed.Protocol (fun n => (machine.trace .reset ins n).modulusEvent (ins n)) 0
      (fun n => (machine.trace .reset ins n).modulus)
      (fun n => (machine.trace .reset ins n).loadModArmed) ∧
    (∀ n, (ins n).dataWrite addrOperand →
      (machine.trace .reset ins (n + 1)).modulus = (machine.trace .reset ins n).modulus ∧
      (machine.trace .reset ins (n + 1)).loadModArmed = (machine.trace .reset ins n).loadModArmed) ∧
    ∀ n, (ins n).dataWrite addrModulus →
      (machine.trace .reset ins (n + 1)).operand = (machine.trace .reset ins n).operand ∧
      (machine.trace .reset ins (n + 1)).loadOpArmed = (machine.trace .reset ins n).loadOpArmed := by
  refine ⟨?_, ?_, ?_, ?_⟩
  · exact Armed.protocol_of_trace (fun n => (machine.trace .reset ins n).armedOperand) rfl
      fun n => armedOperand_edge _ (ins n)
  · exact Armed.protocol_of_trace (fun n => (machine.trace .reset ins n).armedModulus) rfl
      fun n => armedModulus_edge _ (ins n)
  · intro n write
    have kept := armedModulus_edge (machine.trace .reset ins n) (ins n)
    rw [State.modulusEvent, portEvent_other write (by decide) (by decide) fun arms => arms.1] at kept
    exact ⟨congrArg Armed.Port.value kept, congrArg Armed.Port.armed kept⟩
  · intro n write
    have kept := armedOperand_edge (machine.trace .reset ins n) (ins n)
    rw [State.operandEvent, portEvent_other write (by decide) (by decide) fun arms => arms.1] at kept
    exact ⟨congrArg Armed.Port.value kept, congrArg Armed.Port.armed kept⟩

/-- LOAD_OP lets the first OPERAND write through and not the second. -/
def loadOpOnce : ℕ → Pins :=
  script [busWrite addrCtrl 4, busWrite addrOperand 5, busWrite addrOperand 9]

theorem armed_registers_once :
    (machine.trace .reset loadOpOnce 2).operand = 5 ∧
      (machine.trace .reset loadOpOnce 3).operand = (machine.trace .reset loadOpOnce 2).operand := by
  obtain ⟨operand, -⟩ := armed_registers loadOpOnce
  constructor
  · apply operand.takes 1 5 ?_ (by decide)
    refine ⟨0, ⟨by decide, by decide, fun i after below => ?_⟩, 5, by decide⟩
    omega
  · by_contra moved
    rcases operand.changes 2 moved with ⟨j, ⟨before, command, fresh⟩, -⟩ | clear
    · match j with
      | 0 => exact fresh 1 (by decide) (by decide) (by trivial)
      | 1 => exact absurd command (by decide)
    · exact absurd clear (by decide)

end BlindSig.Accel
