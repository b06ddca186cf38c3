import BlindSig.Accel
import BlindSig.ClockedProgram

set_option autoImplicit false

/- The Rust driver: each volatile access of BlindSigAccel is one bus cycle at a
register offset. -/
namespace BlindSig.Driver

open Clocked Accel

def regCtrl : BitVec 5 := 0x00#5
def regStatus : BitVec 5 := 0x04#5
def regOperand : BitVec 5 := 0x08#5
def regResult : BitVec 5 := 0x0C#5
def regModulus : BitVec 5 := 0x10#5

def ctrlStart : Word := 1 <<< 0
def ctrlReset : Word := 1 <<< 1
def ctrlLoadOp : Word := 1 <<< 2
def ctrlLoadMod : Word := 1 <<< 3

def statusBusy : Word := 1 <<< 0
def statusDone : Word := 1 <<< 1
def statusError : Word := 1 <<< 2

abbrev Access := Prog (BitVec 5) Word

def mmioWrite (offset : BitVec 5) (value : Word) : Access Unit := Prog.store offset value

def mmioRead (offset : BitVec 5) : Access Word := Prog.load offset

def reset : Access Unit := mmioWrite regCtrl ctrlReset

def isBusy : Access Bool := do
  return (← mmioRead regStatus) &&& statusBusy != 0

def isDone : Access Bool := do
  return (← mmioRead regStatus) &&& statusDone != 0

def isError : Access Bool := do
  return (← mmioRead regStatus) &&& statusError != 0

def loadModulusWord (word : Word) : Access Unit := do
  mmioWrite regCtrl ctrlLoadMod
  mmioWrite regModulus word

def loadOperandWord (word : Word) : Access Unit := do
  mmioWrite regCtrl ctrlLoadOp
  mmioWrite regOperand word

def start : Access Unit := mmioWrite regCtrl ctrlStart

/-- What follows the polling loop. -/
def readOutcome : Access (Except Unit Word) := do
  if ← isError then
    return .error ()
  else
    return .ok (← mmioRead regResult)

/-- The polling loop, cut off after `polls` reads of STATUS. -/
def waitAndReadResult : ℕ → Access (Option (Except Unit Word))
  | 0 => return none
  | polls + 1 => do
      if ← isBusy then
        waitAndReadResult polls
      else
        return some (← readOutcome)

def loadModulus : List Word → Access Unit
  | [] => return ()
  | word :: words => do
      loadModulusWord word
      loadModulus words

def loadOperand : List Word → Access Unit
  | [] => return ()
  | word :: words => do
      loadOperandWord word
      loadOperand words

def compute (polls : ℕ) (modulus operand : List Word) : Access (Option (Except Unit Word)) := do
  reset
  loadModulus modulus
  loadOperand operand
  start
  waitAndReadResult polls

/-- Calls of `compute` one after the other. -/
def computeAll (polls : ℕ) :
    List (List Word × List Word) → Access (List (Option (Except Unit Word)))
  | [] => return []
  | (modulus, operand) :: calls => do
      let outcome ← compute polls modulus operand
      return outcome :: (← computeAll polls calls)

/-- A call of one of the two load functions. -/
inductive Load where
  | modulus (word : Word)
  | operand (word : Word)

def load : Load → Access Unit
  | .modulus word => loadModulusWord word
  | .operand word => loadOperandWord word

/-- Rounds of loads, a START and the polls, with no reset in between. -/
def rounds (polls : ℕ) : List (List Load) → Access (List (Option (Except Unit Word)))
  | [] => return []
  | loads :: more => do
      loads.forM load
      start
      let outcome ← waitAndReadResult polls
      return outcome :: (← rounds polls more)

/-- The pins an idle cycle leaves free. -/
structure Idle where
  addr : BitVec 5
  wdata : Word
  ren : Bool

def Idle.pins (e : Idle) : Pins := ⟨true, e.addr, e.wdata, false, e.ren⟩

/-- The peripheral as the driver reaches it; a read returns the combinational
data of its cycle. -/
def bus : Bus State Pins (BitVec 5) Word Idle where
  device := machine
  write := busWrite
  read := busRead
  idle := Idle.pins
  rdata s i := (s.settle i).rdata i.addr

end BlindSig.Driver
