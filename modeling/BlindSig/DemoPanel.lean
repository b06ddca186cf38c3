import BlindSig.DemoInput

set_option autoImplicit false

/- app.js: the handlers of the demo panel. Of the page it keeps the state word,
the disabled controls, and every call of `finish` and every verdict so far. -/
namespace BlindSig.Demo

open Clocked

/-- STANDBY, RUN, DONE and FAULT. -/
inductive StateWord where
  | stby | run | done | fault
deriving DecidableEq

/-- The arguments of a call of `finish`, and what it finds. -/
structure Finish where
  operands : Operands
  cycles : U32
  reducedA : Bool
  sim : Harness

/-- One case of the demonstration. -/
structure Row where
  operands : Operands
  res : U32
  cyc : U32
  ok : Bool

structure Verdict where
  rows : List Row
  refCyc : Option U32
  allSame : Bool
  allOk : Bool

structure State where
  sim : Harness
  /-- The operands in the closure of the interval. -/
  timer : Option Operands
  inA : U32
  inB : U32
  inM : U32
  reducedA : Bool
  proved : Bool
  btnRunDisabled : Bool
  inputsDisabled : Bool
  stateWord : StateWord
  /-- Timeouts that will call `prove`. -/
  pending : ℕ
  finishes : List Finish
  verdicts : List Verdict

namespace State

def operands (p : State) : Operands := ⟨p.inA, p.inB, p.inM⟩

def stop (p : State) : State := { p with timer := none }

def arm (p : State) : State := { p with stateWord := .run }

def setRunning (p : State) (on keepEnable : Bool) : State :=
  { p with
    btnRunDisabled := on && !keepEnable
    inputsDisabled := if keepEnable then p.inputsDisabled else on }

/-- The lines that `run`, `stepOne`, `resetPanel` and `prove` share: the fields
are read, kept and loaded. -/
def reload (p : State) (f : Fields) : State :=
  let read := readInputs f
  { p with
    reducedA := read.reducedA
    inA := read.operands.a
    inB := read.operands.b
    inM := read.operands.m
    sim := p.sim.simReset.simLoad read.operands.a read.operands.b read.operands.m }

def finish (p : State) (a b m cycles : U32) : State :=
  let ok := p.sim.simResult.toNat == bigMulMod a b m
  let p : State := { p with
    stateWord := if ok then .done else .fault
    finishes := p.finishes ++ [⟨⟨a, b, m⟩, cycles, p.reducedA, p.sim⟩] }
  let p := p.setRunning false false
  if ok && !p.proved then { p with proved := true, pending := p.pending + 1 } else p

def run (p : State) (f : Fields) : State :=
  let p := ((p.stop.reload f).arm).setRunning true false
  { p with timer := some p.operands }

/-- The callback of the interval, while there is one. -/
def tick (p : State) : State :=
  match p.timer with
  | none => p
  | some ⟨a, b, m⟩ =>
      let (sim, done) := p.sim.simStep
      let p := { p with sim := sim }
      if done then p.stop.finish a b m sim.simCycles else p

/-- The second half of `stepOne`. -/
def stepLoaded (p : State) : State :=
  let (sim, done) := p.sim.simStep
  let p := { p with sim := sim }
  if done then p.finish p.inA p.inB p.inM sim.simCycles else p

def stepOne (p : State) (f : Fields) : State :=
  let p := p.stop
  if p.sim.simCycles = 0 ∨ 33 ≤ p.sim.simCycles then
    (((p.reload f).arm).setRunning true true).stepLoaded
  else p.stepLoaded

def resetPanel (p : State) (f : Fields) : State :=
  let p := p.stop.reload f
  { p with stateWord := .stby }.setRunning false false

end State

/-- One turn of the loop over the cases. -/
def proveCase (a m : U32) (before : Harness × Verdict) (b : U32) : Harness × Verdict :=
  let (sim, v) := before
  let sim := (sim.simReset.simLoad a b m).stepUntilDone 100
  let cyc := sim.simCycles
  let res := sim.simResult
  let ok := res.toNat == bigMulMod a b m
  (sim,
    { rows := v.rows ++ [⟨⟨a, b, m⟩, res, cyc, ok⟩]
      refCyc := some (v.refCyc.getD cyc)
      allSame := if v.refCyc.getD cyc = cyc then v.allSame else false
      allOk := if ok then v.allOk else false })

def proveCases (sim : Harness) (m : U32) : Harness × Verdict :=
  [0, 0xFFFFFFFF, 0xDEADBEEF, m - 1].foldl (proveCase (m - 1) m) (sim, ⟨[], none, true, true⟩)

namespace State

def prove (p : State) (f : Fields) : State :=
  let p := p.stop
  let (sim, v) := proveCases p.sim (readInputs f).operands.m
  let p := { p with sim := sim, verdicts := p.verdicts ++ [v] }
  { p.reload f with stateWord := .stby }

end State

/-- The page as it loads. -/
def page (sim : Harness) : State where
  sim := sim
  timer := none
  inA := 0
  inB := 0
  inM := 7
  reducedA := false
  proved := false
  btnRunDisabled := false
  inputsDisabled := false
  stateWord := .stby
  pending := 0
  finishes := []
  verdicts := []

/-- What the fields hold then: 123456789, 987654321 and 4294967291. -/
def pageFields : Fields :=
  ⟨[49, 50, 51, 52, 53, 54, 55, 56, 57], [57, 56, 55, 54, 53, 52, 51, 50, 49],
    [52, 50, 57, 52, 57, 54, 55, 50, 57, 49]⟩

/-- Where motion is to be reduced the panel is primed only. -/
def boot (sim : Harness) (reducedMotion : Bool) (f : Fields) : State :=
  if reducedMotion then (page sim).resetPanel f else (page sim).run f

inductive Handler where
  | run | step | reset | prove | autoProve | tick
deriving DecidableEq

/-- What happens, and what the fields hold at that moment. -/
structure Event where
  handler : Handler
  fields : Fields

def State.on (p : State) (e : Event) : State :=
  match e.handler with
  | .run => p.run e.fields
  | .step => p.stepOne e.fields
  | .reset => p.resetPanel e.fields
  | .prove => p.prove e.fields
  | .autoProve => if p.pending = 0 then p else { p with pending := p.pending - 1 }.prove e.fields
  | .tick => p.tick

/-- The panel from the state `p` on, with one event for each cycle. -/
def panel (p : State) : Machine State Event := ⟨p, State.on⟩

/-- The panel after the first `n` events of a session. -/
def session (sim : Harness) (reducedMotion : Bool) (f : Fields) (events : ℕ → Event) (n : ℕ) :
    State :=
  (panel (boot sim reducedMotion f)).trace (boot sim reducedMotion f) events n

end BlindSig.Demo
