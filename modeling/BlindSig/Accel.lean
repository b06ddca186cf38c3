import BlindSig.Mulmod
import BlindSig.Redmod

set_option autoImplicit false

namespace BlindSig

abbrev Word := BitVec 32

end BlindSig

/- blindsig_accel.v: the register file, the command decoder and the pipeline
that drives redmod and mulmod. -/
namespace BlindSig.Accel

open Clocked

def addrCtrl : BitVec 5 := 0x00#5
def addrStatus : BitVec 5 := 0x04#5
def addrOperand : BitVec 5 := 0x08#5
def addrResult : BitVec 5 := 0x0C#5
def addrModulus : BitVec 5 := 0x10#5

/-- Bit positions in CTRL. -/
def ctrlStart : ℕ := 0
def ctrlReset : ℕ := 1
def ctrlLoadOp : ℕ := 2
def ctrlLoadMod : ℕ := 3

inductive CState where
  | cIdle | cReduce | cMul | cDone
deriving DecidableEq

structure State where
  cstate : CState
  operand : Word
  modulus : Word
  result : Word
  aReduced : Word
  flagBusy : Bool
  flagDone : Bool
  flagError : Bool
  loadOpArmed : Bool
  loadModArmed : Bool
  redmodStart : Bool
  mulmodStart : Bool
  uRedmod : Redmod.State 32
  uMulmod : Mulmod.State 32
deriving DecidableEq

structure Pins where
  rstN : Bool
  addr : BitVec 5
  wdata : Word
  wen : Bool
  ren : Bool
deriving DecidableEq, Inhabited

def State.reset : State where
  cstate := .cIdle
  operand := 0
  modulus := 0
  result := 0
  aReduced := 0
  flagBusy := false
  flagDone := false
  flagError := false
  loadOpArmed := false
  loadModArmed := false
  redmodStart := false
  mulmodStart := false
  uRedmod := .reset
  uMulmod := .reset

/-- `{29'b0, flag_error, flag_done, flag_busy}`. -/
def State.status (s : State) : Word :=
  0#29 ++ BitVec.ofBool s.flagError ++ BitVec.ofBool s.flagDone ++ BitVec.ofBool s.flagBusy

/-- The combinational read multiplexer. -/
def State.rdata (s : State) (addr : BitVec 5) : Word :=
  if addr = addrStatus then s.status
  else if addr = addrResult then s.result
  else 0

/-- CTRL command register. Reads the registers in `s`, assigns into `n`. -/
def State.ctrlBlock (s : State) (i : Pins) (n : State) : State :=
  if i.wen && i.addr == addrCtrl then
    if i.wdata.getLsbD ctrlReset then
      { n with
        cstate := .cIdle
        operand := 0
        modulus := 0
        result := 0
        aReduced := 0
        flagBusy := false
        flagDone := false
        flagError := false
        loadOpArmed := false
        loadModArmed := false }
    else if i.wdata.getLsbD ctrlStart && s.cstate == .cIdle then
      let n :=
        if s.modulus == 0 then
          { n with flagError := true, flagDone := true, flagBusy := false }
        else
          { n with
            flagBusy := true
            flagDone := false
            flagError := false
            redmodStart := true
            cstate := .cReduce }
      { n with loadOpArmed := false, loadModArmed := false }
    else if i.wdata.getLsbD ctrlLoadOp then { n with loadOpArmed := true }
    else if i.wdata.getLsbD ctrlLoadMod then { n with loadModArmed := true }
    else n
  else n

/-- Data register writes, gated by the armed flags. -/
def State.dataBlock (s : State) (i : Pins) (n : State) : State :=
  let n :=
    if i.wen && i.addr == addrOperand && s.loadOpArmed then
      { n with operand := i.wdata, loadOpArmed := false }
    else n
  if i.wen && i.addr == addrModulus && s.loadModArmed then
    { n with modulus := i.wdata, loadModArmed := false }
  else n

/-- Reduce then multiply. Comes last in the process, so its assignments win. -/
def State.pipelineBlock (s : State) (n : State) : State :=
  match s.cstate with
  | .cReduce =>
      if s.uRedmod.done then
        { n with aReduced := s.uRedmod.result, mulmodStart := true, cstate := .cMul }
      else n
  | .cMul =>
      if s.uMulmod.done then
        { n with result := s.uMulmod.result, flagBusy := false, flagDone := true, cstate := .cDone }
      else n
  | _ => n

/-- The process under a released reset; start signals are one-cycle pulses. -/
def State.clock (s : State) (i : Pins) : State :=
  let n := { s with redmodStart := false, mulmodStart := false }
  s.pipelineBlock (s.dataBlock i (s.ctrlBlock i n))

def State.redmodInput (s : State) (i : Pins) : Redmod.Input 32 :=
  ⟨i.rstN, s.redmodStart, s.operand, s.modulus⟩

def State.mulmodInput (s : State) (i : Pins) : Mulmod.Input 32 :=
  ⟨i.rstN, s.mulmodStart, s.aReduced, s.aReduced, s.modulus⟩

/-- One clock edge of the process and of both instances. -/
def State.edge (s : State) (i : Pins) : State :=
  { (if i.rstN then s.clock i else .reset) with
    uRedmod := s.uRedmod.edge (s.redmodInput i)
    uMulmod := s.uMulmod.edge (s.mulmodInput i) }

def machine : Machine State Pins := ⟨.reset, State.edge⟩

/-- The registers as a cycle shows them: a low reset acts without an edge. -/
def State.settle (s : State) (i : Pins) : State := if i.rstN then s else .reset

/-- What cycle `n` of a run from hardware reset shows. -/
def shown (ins : ℕ → Pins) (n : ℕ) : State := (machine.trace .reset ins n).settle (ins n)

/-- A cycle that writes, one that reads, and one that does neither. -/
def busWrite (addr : BitVec 5) (data : Word) : Pins := ⟨true, addr, data, true, false⟩

def busRead (addr : BitVec 5) : Pins := ⟨true, addr, 0, false, true⟩

def busIdle : Pins := ⟨true, 0, 0, false, false⟩

/-- The given cycles, then a silent bus. -/
def script (cycles : List Pins) (n : ℕ) : Pins := cycles.getD n busIdle

theorem script_silent (cycles : List Pins) {n : ℕ} (past : cycles.length ≤ n) :
    script cycles n = busIdle := by
  simp [script, List.getElem?_eq_none past]

def Pins.ctrlWrite (i : Pins) : Prop := i.wen = true ∧ i.addr = addrCtrl

/-- A CTRL write with the RESET bit, sampled by an edge with reset released. -/
def Pins.resetWrite (i : Pins) : Prop :=
  i.rstN = true ∧ i.ctrlWrite ∧ i.wdata.getLsbD ctrlReset = true

/-- A CTRL write with the START bit and without the RESET bit. -/
def Pins.startWrite (i : Pins) : Prop :=
  i.rstN = true ∧ i.ctrlWrite ∧ i.wdata.getLsbD ctrlReset = false ∧
    i.wdata.getLsbD ctrlStart = true

instance (i : Pins) : Decidable i.ctrlWrite := inferInstanceAs (Decidable (_ ∧ _))

instance (i : Pins) : Decidable i.resetWrite := inferInstanceAs (Decidable (_ ∧ _))

instance (i : Pins) : Decidable i.startWrite := inferInstanceAs (Decidable (_ ∧ _))

/-- What one cycle does to the registers through the bus. -/
inductive Command where
  | quiet
  | reset
  | start
  | refuse
  | loadOp
  | loadMod
  | operand (value : Word)
  | modulus (value : Word)
deriving DecidableEq

def State.command (s : State) (i : Pins) : Command :=
  if i.wen then
    if i.addr = addrCtrl then
      if i.wdata.getLsbD ctrlReset then .reset
      else if i.wdata.getLsbD ctrlStart ∧ s.cstate = .cIdle then
        if s.modulus = 0 then .refuse else .start
      else if i.wdata.getLsbD ctrlLoadOp then .loadOp
      else if i.wdata.getLsbD ctrlLoadMod then .loadMod
      else .quiet
    else if i.addr = addrOperand ∧ s.loadOpArmed then .operand i.wdata
    else if i.addr = addrModulus ∧ s.loadModArmed then .modulus i.wdata
    else .quiet
  else .quiet

/-- The reduction reports done while the control waits for it. -/
def State.handsOver (s : State) : Bool := decide (s.cstate = .cReduce) && s.uRedmod.done

/-- The multiplication reports done while the control waits for it. -/
def State.completes (s : State) : Bool := decide (s.cstate = .cMul) && s.uMulmod.done

end BlindSig.Accel
