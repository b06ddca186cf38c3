import BlindSig.ClockedCircuit

set_option autoImplicit false

/- redmod.v: the registers, the combinational step and the clocked process,
for every WIDTH. -/
namespace BlindSig.Redmod

open Clocked

/-- `CW`, the width of the iteration counter. -/
def cw (width : ℕ) : ℕ := Nat.clog 2 width + 1

inductive Phase where
  | sIdle | sRun
deriving DecidableEq

structure State (width : ℕ) where
  state : Phase
  xReg : BitVec width
  mReg : BitVec width
  r : BitVec width
  cnt : BitVec (cw width)
  result : BitVec width
  done : Bool
deriving DecidableEq

structure Input (width : ℕ) where
  rstN : Bool
  start : Bool
  x : BitVec width
  m : BitVec width

variable {width : ℕ}

def State.busy (s : State width) : Bool := decide (s.state = .sRun)

/-- `{1'b0, m_reg}`. -/
def mExt (mReg : BitVec width) : BitVec (width + 1) := mReg.setWidth (width + 1)

/-- `{r, x_reg[WIDTH-1]}`. -/
def shifted (r : BitVec width) (bit : Bool) : BitVec (width + 1) := r.concat bit

def sub (mReg r : BitVec width) (bit : Bool) : BitVec (width + 1) := shifted r bit - mExt mReg

def nextR (mReg : BitVec width) (bit : Bool) (r : BitVec width) : BitVec (width + 1) :=
  if mExt mReg ≤ shifted r bit then sub mReg r bit else shifted r bit

def State.reset : State width where
  state := .sIdle
  xReg := 0
  mReg := 0
  r := 0
  cnt := 0
  result := 0
  done := false

/-- The process under a released reset; the default of `done` comes first. -/
def State.clock (s : State width) (i : Input width) : State width :=
  let n := { s with done := false }
  match s.state with
  | .sIdle =>
      if i.start then
        { n with
          xReg := i.x
          mReg := i.m
          r := 0
          cnt := BitVec.ofNat (cw width) width
          state := .sRun }
      else n
  | .sRun =>
      let next := (nextR s.mReg s.xReg.msb s.r).setWidth width
      let n := { n with r := next, xReg := s.xReg <<< 1, cnt := s.cnt - 1#(cw width) }
      if s.cnt = 1#(cw width) then
        { n with result := next, done := true, state := .sIdle }
      else n

def State.edge (s : State width) (i : Input width) : State width :=
  if i.rstN then s.clock i else .reset

def machine (width : ℕ) : Machine (State width) (Input width) := ⟨.reset, State.edge⟩

/-- The step as the round of a bit-serial unit, under the latched `m`. -/
def datapath (width : ℕ) : Datapath (BitVec width) (BitVec width) (BitVec width) where
  round mReg bit r := (nextR mReg bit r).setWidth width
  clear := 0
  out r := r

def State.toSerial (s : State width) :
    SerialUnit (BitVec width) (BitVec width) (BitVec width) width (cw width) where
  running := s.busy
  latched := s.mReg
  shift := s.xReg
  acc := s.r
  cnt := s.cnt
  result := s.result
  done := s.done

@[simp] theorem toSerial_running (s : State width) : s.toSerial.running = s.busy := rfl

@[simp] theorem busy_eq_false (s : State width) : s.busy = false ↔ s.state = .sIdle := by
  cases phase : s.state <;> simp [State.busy, phase]

def Input.launch (i : Input width) : Launch (BitVec width) width where
  start := i.start
  latch := i.m
  bits := i.x

/-- What a whole run stores, within the precondition or not. -/
def value (x m : BitVec width) : BitVec width := (datapath width).value m x

/-- While reset is released the unit is a bit-serial unit. -/
theorem toSerial_edge (s : State width) (i : Input width) (released : i.rstN = true) :
    (s.edge i).toSerial = s.toSerial.edge (datapath width) i.launch := by
  simp only [State.edge, released, ↓reduceIte, State.clock]
  cases phase : s.state with
  | sIdle =>
      cases start : i.start <;>
        simp [SerialUnit.edge, State.toSerial, State.busy, Input.launch, datapath, phase, start]
  | sRun =>
      by_cases last : s.cnt = 1#(cw width) <;>
        simp [SerialUnit.edge, State.toSerial, State.busy, datapath, phase, last]

/-- As a bit-serial unit behind its reset pin. -/
def circuit (width : ℕ) : SerialCircuit (machine width) (datapath width) width (cw width) where
  unit := State.toSerial
  launch := Input.launch
  up i := i.rstN = true
  room := lt_two_pow_clog width
  fresh := ⟨rfl, rfl⟩
  held _ _ low := if_neg low
  runs := toSerial_edge

end BlindSig.Redmod
