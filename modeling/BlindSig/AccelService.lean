import BlindSig.AccelFlight

set_option autoImplicit false

namespace BlindSig.Accel

open Clocked

/-- No operation in flight, and nothing left over in the instances. -/
structure AtRest (s : State) : Prop where
  rest : ¬s.inFlight
  flagBusy : s.flagBusy = false
  redmodStart : s.redmodStart = false
  mulmodStart : s.mulmodStart = false
  redmod : s.uRedmod.toSerial.Quiet
  mulmod : s.uMulmod.toSerial.Quiet

/-- Ready for a START over the operand `x` and the modulus `m`. -/
structure Loaded (x m : Word) (s : State) : Prop where
  ready : Ready s
  flagBusy : s.flagBusy = false
  operand : s.operand = x
  modulus : s.modulus = m

/-- A START over a zero modulus has been refused. -/
structure Refused (x : Word) (s : State) : Prop where
  loaded : Loaded x 0 s
  flagError : s.flagError = true

/-- What the two units make of `x` when the modulus stays `m`. -/
def squareValue (x m : Word) : Word :=
  Mulmod.value (Redmod.value x m) (Redmod.value x m) m

/-- The operation over `x` and `m` is `n` edges from its outcome. -/
inductive Flight (x m : Word) : ℕ → State → Prop
  | requested {s : State} (stage : Requested x m s) : Flight x m 68 s
  | reducing {s : State} {n : ℕ} (stage : Reducing (Redmod.value x m) n s)
      (held : s.modulus = m) : Flight x m (35 + n) s
  | handed {s : State} (stage : Handed (Redmod.value x m) s) (held : s.modulus = m) :
      Flight x m 34 s
  | multiplying {s : State} {n : ℕ} (stage : Multiplying (squareValue x m) n s) :
      Flight x m (1 + n) s
  | finished {s : State} (stage : Finished (squareValue x m) s) : Flight x m 0 s

variable {s : State} {i : Pins} {x m v : Word} {n : ℕ}

theorem squareValue_toNat (nonzero : m ≠ 0) :
    (squareValue x m).toNat = x.toNat ^ 2 % m.toNat := by
  have positive : 0 < m.toNat := Nat.pos_of_ne_zero fun zero => nonzero (BitVec.eq_of_toNat_eq zero)
  have remainder := Redmod.value_toNat x m positive
  have within : (Redmod.value x m).toNat < m.toNat := remainder ▸ Nat.mod_lt _ positive
  rw [squareValue, Mulmod.value_toNat _ _ m within, remainder, ← Nat.mul_mod, Nat.pow_two]

theorem loaded_reset : Loaded 0 0 .reset :=
  ⟨⟨rfl, rfl, rfl, ⟨rfl, rfl⟩, ⟨rfl, rfl⟩⟩, rfl, rfl, rfl⟩

theorem Loaded.atRest (loaded : Loaded x m s) : AtRest s where
  rest := by simp [State.inFlight, loaded.ready.cstate]
  flagBusy := loaded.flagBusy
  redmodStart := loaded.ready.redmodStart
  mulmodStart := loaded.ready.mulmodStart
  redmod := loaded.ready.redmod
  mulmod := loaded.ready.mulmod

theorem Finished.atRest (finished : Finished v s) : AtRest s where
  rest := by simp [State.inFlight, finished.cstate]
  flagBusy := finished.flagBusy
  redmodStart := finished.redmodStart
  mulmodStart := finished.mulmodStart
  redmod := finished.redmod
  mulmod := finished.mulmod

section Edge

variable (released : i.rstN = true)

include released

/-- Anything but a START keeps the peripheral ready; what it loads is up to the
command. -/
theorem Loaded.edge {x' m' : Word} {c : Command} (loaded : Loaded x m s) (order : s.command i = c)
    (refused : c ≠ .start) (operand : (s.obey c).operand = x')
    (modulus : (s.obey c).modulus = m') : Loaded x' m' (s.edge i) := by
  have ready := loaded.ready
  have redmod := redmod_quiet_edge released ready.redmod ready.redmodStart
  have mulmod := mulmod_quiet_edge released ready.mulmod ready.mulmodStart
  have kept : (s.obey c).cstate = .cIdle ∧ (s.obey c).redmodStart = false ∧
      (s.obey c).flagBusy = false ∧ (s.obey c).mulmodStart = false := by
    have idle := ready.cstate
    have low := loaded.flagBusy
    cases c <;> simp_all [State.obey, State.reset]
  obtain ⟨cstate, redmodStart, flagBusy, mulmodStart⟩ := kept
  rw [edge_resting released (by simp [ready.cstate]) (by simp [ready.cstate]), order] at *
  exact ⟨⟨cstate, redmodStart, mulmodStart, redmod, mulmod⟩, flagBusy, operand, modulus⟩

theorem AtRest.edge_quiet (rests : AtRest s) (order : s.command i = .quiet) :
    AtRest (s.edge i) := by
  have redmod := redmod_quiet_edge released rests.redmod rests.redmodStart
  have mulmod := mulmod_quiet_edge released rests.mulmod rests.mulmodStart
  rw [edge_resting released (fun phase => rests.rest (Or.inl phase))
    (fun phase => rests.rest (Or.inr phase)), order] at *
  exact ⟨rests.rest, rests.flagBusy, rfl, rfl, redmod, mulmod⟩

/-- From rest the soft reset leaves nothing behind. -/
theorem AtRest.edge_reset (rests : AtRest s) (order : s.command i = .reset) :
    Loaded 0 0 (s.edge i) := by
  have redmod := redmod_quiet_edge released rests.redmod rests.redmodStart
  have mulmod := mulmod_quiet_edge released rests.mulmod rests.mulmodStart
  rw [edge_resting released (fun phase => rests.rest (Or.inl phase))
    (fun phase => rests.rest (Or.inr phase)), order] at *
  exact ⟨⟨rfl, rfl, rfl, redmod, mulmod⟩, rfl, rfl, rfl⟩

theorem Loaded.edge_refuse (loaded : Loaded x 0 s) (order : s.command i = .refuse) :
    Refused x (s.edge i) := by
  refine ⟨loaded.edge released order (by simp) loaded.operand loaded.modulus, ?_⟩
  rw [edge_flagError released, order]
  rfl

theorem Refused.edge_quiet (refused : Refused x s) (order : s.command i = .quiet) :
    Refused x (s.edge i) := by
  have loaded := refused.loaded
  refine ⟨loaded.edge released order (by simp) loaded.operand loaded.modulus, ?_⟩
  rw [edge_flagError released, order]
  exact refused.flagError

/-- Nothing but a reset ends a finished operation. -/
theorem Finished.edge (finished : Finished v s) (calm : ¬i.resetWrite) : Finished v (s.edge i) := by
  have active : s.cstate ≠ .cIdle := by simp [finished.cstate]
  obtain ⟨cstate, busy, done, error, start, -, result⟩ := obey_in_flight released calm active
  have redmod := redmod_quiet_edge released finished.redmod finished.redmodStart
  have mulmod := mulmod_quiet_edge released finished.mulmod finished.mulmodStart
  have low : (s.obey (s.command i)).mulmodStart = false := by cases s.command i <;> rfl
  rw [edge_resting released (by simp [finished.cstate]) (by simp [finished.cstate])] at *
  exact ⟨cstate.trans finished.cstate, busy.trans finished.flagBusy, done.trans finished.flagDone,
    error.trans finished.flagError, result.trans finished.result, start, low, redmod, mulmod⟩

/-- With no write on the bus the outcome draws nearer with every edge. -/
theorem Flight.edge (flight : Flight x m n s) (silent : i.wen = false) :
    Flight x m (n - 1) (s.edge i) := by
  have order := command_quiet (s := s) silent
  have calm : ¬i.resetWrite := fun written => by simp [written.2.1.1] at silent
  have kept : (s.edge i).modulus = s.modulus := by
    rw [edge_modulus released, order]; rfl
  cases flight with
  | requested stage =>
      exact .reducing (n := 32) (stage.edge released calm) (kept.trans stage.modulus)
  | @reducing _ n stage held =>
      cases n with
      | zero => exact .handed (stage.edge_done released calm) (kept.trans held)
      | succ n => exact .reducing (stage.edge released calm) (kept.trans held)
  | handed stage held =>
      have next := stage.edge released calm
      rw [held] at next
      exact .multiplying (n := 32) next
  | @multiplying _ n stage =>
      cases n with
      | zero => exact .finished (stage.edge_done released calm)
      | succ n =>
          have next := Flight.multiplying (x := x) (m := m) (stage.edge released calm)
          rwa [show 1 + n = 1 + (n + 1) - 1 by omega] at next
  | finished stage => exact .finished (stage.edge released calm)

end Edge

/-- BUSY is up until the outcome is there. -/
theorem Flight.flagBusy (flight : Flight x m n s) : s.flagBusy = decide (n ≠ 0) := by
  cases flight with
  | requested stage => exact stage.flags.flagBusy
  | reducing stage held => simp [stage.flags.flagBusy]
  | handed stage held => exact stage.flags.flagBusy
  | multiplying stage => simp [stage.flags.flagBusy]
  | finished stage => exact stage.flagBusy

theorem Flight.landed (flight : Flight x m 0 s) : Finished (squareValue x m) s := by
  generalize now : 0 = n at flight
  cases flight with
  | finished stage => exact stage
  | requested stage => omega
  | reducing stage held => omega
  | handed stage held => omega
  | multiplying stage => omega

end BlindSig.Accel
