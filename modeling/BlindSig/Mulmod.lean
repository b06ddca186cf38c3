import BlindSig.ClockedCircuit

set_option autoImplicit false

/- mulmod.v: the registers, the combinational step and the clocked process,
for every WIDTH. -/
namespace BlindSig.Mulmod

open Clocked

/-- `CW`, the width of the iteration counter. -/
def cw (width : ℕ) : ℕ := Nat.clog 2 width + 1

inductive Phase where
  | sIdle | sRun
deriving DecidableEq

structure State (width : ℕ) where
  state : Phase
  aReg : BitVec width
  mReg : BitVec width
  bReg : BitVec width
  acc : BitVec (width + 1)
  cnt : BitVec (cw width)
  result : BitVec width
  done : Bool
deriving DecidableEq

structure Input (width : ℕ) where
  rstN : Bool
  start : Bool
  a : BitVec width
  b : BitVec width
  m : BitVec width

variable {width : ℕ}

def State.busy (s : State width) : Bool := decide (s.state = .sRun)

/-- `{1'b0, m_reg}`. -/
def mExt (mReg : BitVec width) : BitVec (width + 1) := mReg.setWidth (width + 1)

/-- `{acc[WIDTH-1:0], 1'b0}`: the top bit of the accumulator is dropped. -/
def dbl (acc : BitVec (width + 1)) : BitVec (width + 1) := (acc.setWidth width).concat false

def dblSub (mReg : BitVec width) (acc : BitVec (width + 1)) : BitVec (width + 1) :=
  dbl acc - mExt mReg

def red1 (mReg : BitVec width) (acc : BitVec (width + 1)) : BitVec (width + 1) :=
  if mExt mReg ≤ dbl acc then dblSub mReg acc else dbl acc

def add (aReg mReg : BitVec width) (acc : BitVec (width + 1)) : BitVec (width + 1) :=
  red1 mReg acc + aReg.setWidth (width + 1)

def addSub (aReg mReg : BitVec width) (acc : BitVec (width + 1)) : BitVec (width + 1) :=
  add aReg mReg acc - mExt mReg

def red2 (aReg mReg : BitVec width) (acc : BitVec (width + 1)) : BitVec (width + 1) :=
  if mExt mReg ≤ add aReg mReg acc then addSub aReg mReg acc else add aReg mReg acc

/-- The multiplexer on the active bit of `b_reg`. -/
def step (aReg mReg : BitVec width) (bit : Bool) (acc : BitVec (width + 1)) :
    BitVec (width + 1) :=
  if bit then red2 aReg mReg acc else red1 mReg acc

def State.reset : State width where
  state := .sIdle
  aReg := 0
  mReg := 0
  bReg := 0
  acc := 0
  cnt := 0
  result := 0
  done := false

/-- The process under a released reset; the default of `done` comes first. -/
def State.clock (s : State width) (i : Input width) : State width :=
  let n := { s with done := false }
  match s.state with
  | .sIdle =>
      if i.start then
        { n with
          aReg := i.a
          bReg := i.b
          mReg := i.m
          acc := 0
          cnt := BitVec.ofNat (cw width) width
          state := .sRun }
      else n
  | .sRun =>
      let next := step s.aReg s.mReg s.bReg.msb s.acc
      let n := { n with acc := next, bReg := s.bReg <<< 1, cnt := s.cnt - 1#(cw width) }
      if s.cnt = 1#(cw width) then
        { n with result := next.setWidth width, done := true, state := .sIdle }
      else n

def State.edge (s : State width) (i : Input width) : State width :=
  if i.rstN then s.clock i else .reset

def machine (width : ℕ) : Machine (State width) (Input width) := ⟨.reset, State.edge⟩

/-- The step as the round of a bit-serial unit, under the latched `a` and `m`. -/
def datapath (width : ℕ) :
    Datapath (BitVec width × BitVec width) (BitVec (width + 1)) (BitVec width) where
  round latched := step latched.1 latched.2
  clear := 0
  out acc := acc.setWidth width

def State.toSerial (s : State width) :
    SerialUnit (BitVec width × BitVec width) (BitVec (width + 1)) (BitVec width) width (cw width) where
  running := s.busy
  latched := (s.aReg, s.mReg)
  shift := s.bReg
  acc := s.acc
  cnt := s.cnt
  result := s.result
  done := s.done

@[simp] theorem toSerial_running (s : State width) : s.toSerial.running = s.busy := rfl

@[simp] theorem busy_eq_false (s : State width) : s.busy = false ↔ s.state = .sIdle := by
  cases phase : s.state <;> simp [State.busy, phase]

def Input.launch (i : Input width) : Launch (BitVec width × BitVec width) width where
  start := i.start
  latch := (i.a, i.m)
  bits := i.b

/-- What a whole run stores, within the preconditions or not. -/
def value (a b m : BitVec width) : BitVec width := (datapath width).value (a, m) b

/-- While reset is released the unit is a bit-serial unit. -/
theorem toSerial_edge (s : State width) (i : Input width) (released : i.rstN = true) :
    (s.edge i).toSerial = s.toSerial.edge (datapath width) i.launch := by
  simp only [State.edge, released, ↓reduceIte, State.clock]
  cases phase : s.state with
  | sIdle =>
      cases start : i.start <;>
        simp [SerialUnit.edge, State.toSerial, State.busy, Input.launch, datapath, phase, start]
  | sRun =>
      by_cases last : s.cnt = 1#(cw width) <;>
        simp [SerialUnit.edge, State.toSerial, State.busy, datapath, phase, last]

/-- As a bit-serial unit behind its reset pin. -/
def circuit (width : ℕ) : SerialCircuit (machine width) (datapath width) width (cw width) where
  unit := State.toSerial
  launch := Input.launch
  up i := i.rstN = true
  room := lt_two_pow_clog width
  fresh := ⟨rfl, rfl⟩
  held _ _ low := if_neg low
  runs := toSerial_edge

end BlindSig.Mulmod
