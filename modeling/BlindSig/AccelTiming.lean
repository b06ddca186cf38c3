import Mathlib.Tactic.IntervalCases
import BlindSig.AccelStep

set_option autoImplicit false

namespace BlindSig.Accel

open Clocked

/-- Equal in everything but OPERAND data and nonzero MODULUS data. -/
structure Pins.AgreesPublicly (i j : Pins) : Prop where
  rstN : i.rstN = j.rstN
  addr : i.addr = j.addr
  wen : i.wen = j.wen
  ren : i.ren = j.ren
  ctrl : i.ctrlWrite → i.wdata = j.wdata
  modulus : i.wen = true → i.addr = addrModulus → (i.wdata = 0 ↔ j.wdata = 0)

/-- The same control and the same timing, over whatever data. -/
structure SameTiming (s t : State) : Prop where
  cstate : s.cstate = t.cstate
  flagBusy : s.flagBusy = t.flagBusy
  flagDone : s.flagDone = t.flagDone
  flagError : s.flagError = t.flagError
  loadOpArmed : s.loadOpArmed = t.loadOpArmed
  loadModArmed : s.loadModArmed = t.loadModArmed
  redmodStart : s.redmodStart = t.redmodStart
  mulmodStart : s.mulmodStart = t.mulmodStart
  modulus : s.modulus = 0 ↔ t.modulus = 0
  redmod : s.uRedmod.toSerial.InStep t.uRedmod.toSerial
  mulmod : s.uMulmod.toSerial.InStep t.uMulmod.toSerial

/-- Commands of the same kind; a modulus counts as zero or nonzero. -/
def Command.Alike : Command → Command → Prop
  | .operand _, .operand _ => True
  | .modulus v, .modulus v' => v = 0 ↔ v' = 0
  | c, c' => c = c'

variable {s t : State} {i j : Pins}

theorem sameTiming_refl (s : State) : SameTiming s s :=
  ⟨rfl, rfl, rfl, rfl, rfl, rfl, rfl, rfl, Iff.rfl, ⟨rfl, rfl, rfl⟩, ⟨rfl, rfl, rfl⟩⟩

theorem SameTiming.command (same : SameTiming s t) (agrees : i.AgreesPublicly j) :
    (s.command i).Alike (t.command j) := by
  have ctrl := agrees.ctrl
  have modulus := agrees.modulus
  unfold State.command
  rw [← agrees.wen, ← agrees.addr, ← same.cstate, ← same.loadOpArmed, ← same.loadModArmed]
  cases wen : i.wen with
  | false => rfl
  | true =>
      by_cases isCtrl : i.addr = addrCtrl
      · rw [if_pos rfl, if_pos isCtrl, if_pos rfl, if_pos isCtrl, ← ctrl ⟨wen, isCtrl⟩,
          if_congr same.modulus rfl rfl]
        split
        · rfl
        · split
          · split <;> rfl
          · split
            · rfl
            · split <;> rfl
      · rw [if_pos rfl, if_neg isCtrl, if_pos rfl, if_neg isCtrl]
        split
        · trivial
        · split
          · rename_i armed
            exact modulus wen armed.1
          · rfl

/-- The registers of the control depend only on the kind of the command. -/
theorem SameTiming.obey (same : SameTiming s t) {c c' : Command} (alike : c.Alike c') :
    SameTiming (s.obey c) (t.obey c') := by
  obtain ⟨cstate, busy, done, error, op, mod, reduce, mul, modulus, redmod, mulmod⟩ := same
  cases c <;> cases c' <;> simp only [Command.Alike, reduceCtorEq] at alike <;>
    constructor <;> first | assumption | rfl

theorem SameTiming.edge (same : SameTiming s t) (agrees : i.AgreesPublicly j) :
    SameTiming (s.edge i) (t.edge j) := by
  cases released : i.rstN with
  | false =>
      rw [edge_held released, edge_held (agrees.rstN ▸ released)]
      exact sameTiming_refl _
  | true =>
      have released' := agrees.rstN ▸ released
      have obeyed := same.obey (same.command agrees)
      have hands : s.handsOver = t.handsOver := by
        simp only [State.handsOver, same.cstate]
        exact congrArg _ same.redmod.done
      have completes : s.completes = t.completes := by
        simp only [State.completes, same.cstate]
        exact congrArg _ same.mulmod.done
      constructor
      · rw [edge_cstate released, edge_cstate released', hands, completes, obeyed.cstate]
      · rw [edge_flagBusy released, edge_flagBusy released', completes, obeyed.flagBusy]
      · rw [edge_flagDone released, edge_flagDone released', completes, obeyed.flagDone]
      · rw [edge_flagError released, edge_flagError released', obeyed.flagError]
      · rw [edge_loadOpArmed released, edge_loadOpArmed released', obeyed.loadOpArmed]
      · rw [edge_loadModArmed released, edge_loadModArmed released', obeyed.loadModArmed]
      · rw [edge_redmodStart released, edge_redmodStart released', obeyed.redmodStart]
      · rw [edge_mulmodStart released, edge_mulmodStart released', hands]
      · rw [edge_modulus released, edge_modulus released']
        exact obeyed.modulus
      · rw [edge_redmod released, edge_redmod released']
        exact same.redmod.edge same.redmodStart
      · rw [edge_mulmod released, edge_mulmod released']
        exact same.mulmod.edge same.mulmodStart

theorem SameTiming.settle (same : SameTiming s t) (agrees : i.AgreesPublicly j) :
    SameTiming (s.settle i) (t.settle j) := by
  unfold State.settle
  rw [← agrees.rstN]
  split
  · exact same
  · exact sameTiming_refl _

/-- What an observer of the bus can read off a state, RESULT apart. -/
theorem SameTiming.rdata (same : SameTiming s t) {addr : BitVec 5} (other : addr ≠ addrResult) :
    s.rdata addr = t.rdata addr := by
  simp only [State.rdata, State.status, same.flagBusy, same.flagDone, same.flagError, other,
    ↓reduceIte]

/-- Two-run noninterference, for every traffic pattern: neither STATUS nor any
other readable word except RESULT, nor the cycles in which the two datapaths
start and finish, depend on the operands. -/
theorem constant_time (ins ins' : ℕ → Pins) (agree : ∀ n, (ins n).AgreesPublicly (ins' n))
    (n : ℕ) :
    (shown ins n).status = (shown ins' n).status ∧
      (∀ addr, addr ≠ addrResult → (shown ins n).rdata addr = (shown ins' n).rdata addr) ∧
      (shown ins n).uRedmod.busy = (shown ins' n).uRedmod.busy ∧
      (shown ins n).uRedmod.done = (shown ins' n).uRedmod.done ∧
      (shown ins n).uMulmod.busy = (shown ins' n).uMulmod.busy ∧
      (shown ins n).uMulmod.done = (shown ins' n).uMulmod.done := by
  have step : ∀ s t i j, SameTiming s t → i.AgreesPublicly j →
      SameTiming (machine.edge s i) (machine.edge t j) :=
    fun _ _ _ _ same agrees => same.edge agrees
  have same : SameTiming (shown ins n) (shown ins' n) :=
    (machine.trace_related SameTiming step (sameTiming_refl .reset) agree n).settle (agree n)
  exact ⟨same.rdata (by decide : addrStatus ≠ addrResult), fun addr other => same.rdata other,
    same.redmod.running, same.redmod.done, same.mulmod.running, same.mulmod.done⟩

/-- Squaring 10 mod 7 and 3 mod 13 take the same time, up to the last cycle. -/
theorem constant_time_two :
    (shown (script [busWrite addrCtrl 8, busWrite addrModulus 7, busWrite addrCtrl 4,
      busWrite addrOperand 10, busWrite addrCtrl 1]) 72).status =
    (shown (script [busWrite addrCtrl 8, busWrite addrModulus 13, busWrite addrCtrl 4,
      busWrite addrOperand 3, busWrite addrCtrl 1]) 72).status := by
  refine (constant_time _ _ (fun n => ?_) 72).1
  by_cases early : n < 5
  · interval_cases n <;> constructor <;> decide
  · rw [script_silent _ (by simpa using early), script_silent _ (by simpa using early)]
    exact ⟨rfl, rfl, rfl, rfl, fun _ => rfl, fun _ _ => Iff.rfl⟩

end BlindSig.Accel
