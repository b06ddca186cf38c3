import BlindSig.AccelBusy
import BlindSig.AccelReadable

set_option autoImplicit false

namespace BlindSig.Accel

open Clocked

/-- The control is idle over a zero modulus and nothing is armed. -/
structure Unloaded (s : State) : Prop where
  cstate : s.cstate = .cIdle
  modulus : s.modulus = 0
  opUnarmed : s.loadOpArmed = false
  modUnarmed : s.loadModArmed = false

/-- What refused STARTs make of `s`. -/
structure RefusedStart (s t : State) : Prop where
  status : t.rdata addrStatus = statusFailed
  cstate : t.cstate = s.cstate
  operand : t.operand = s.operand
  modulus : t.modulus = s.modulus
  aReduced : t.aReduced = s.aReduced
  result : t.rdata addrResult = s.rdata addrResult
  redmodStart : t.redmodStart = false
  mulmodStart : t.mulmodStart = false

/-- A cycle without a write. -/
def Pins.idle (i : Pins) : Prop := i.rstN = true ∧ i.wen = false

/-- The flags of the outcome, forgotten. -/
def State.forget (s : State) : State := { s with flagDone := false, flagError := false }

/-- A START over a nonzero modulus that is taken, a RESET or a hardware reset. -/
def State.settles (s : State) (i : Pins) : Prop :=
  i.rstN = false ∨ i.resetWrite ∨ i.startWrite ∧ s.cstate = .cIdle ∧ s.modulus ≠ 0

instance (s : State) (i : Pins) : Decidable (s.settles i) := inferInstanceAs (Decidable (_ ∨ _))

variable {s t : State} {i j : Pins}

/-- The flags are written and shown, but nothing is decided by them. -/
theorem forget_edge (s : State) (i : Pins) : (s.edge i).forget = (s.forget.edge i).forget := by
  cases released : i.rstN with
  | false => rw [edge_held released, edge_held released]
  | true =>
      have order : s.forget.command i = s.command i := rfl
      have hands : s.forget.handsOver = s.handsOver := rfl
      have completes : s.forget.completes = s.completes := rfl
      rw [edge_eq released, edge_eq released, order, hands, completes]
      cases s.command i <;> rfl

/-- Whatever settles an operation sets both flags anew. -/
theorem settles_edge (settles : s.settles i) : s.edge i = s.forget.edge i := by
  rcases settles with held | written | ⟨written, idle, nonzero⟩
  · rw [edge_held held, edge_held held]
  · have order : s.command i = .reset := command_reset written
    have order' : s.forget.command i = .reset := order
    rw [edge_eq written.1, edge_eq written.1, order, order']
    rfl
  · have order : s.command i = .start := by
      rw [command_of_startWrite written idle, if_neg nonzero]
    have order' : s.forget.command i = .start := order
    rw [edge_eq written.1, edge_eq written.1, order, order']
    rfl

section Refused

variable (unloaded : Unloaded s)

include unloaded

theorem command_refused (written : i.startWrite) : s.command i = .refuse := by
  rw [command_of_startWrite written unloaded.cstate, if_pos unloaded.modulus]

/-- A refused START and an idle cycle leave the same but for the two flags. -/
theorem refused_edge (control : Control s) (written : i.startWrite) (idle : j.idle) :
    (s.edge i).forget = (s.edge j).forget := by
  have reduce : s.cstate ≠ .cReduce := by simp [unloaded.cstate]
  have mul : s.cstate ≠ .cMul := by simp [unloaded.cstate]
  have quiet : s.flagBusy = false := by
    apply eq_false_of_ne_true
    intro busy
    rcases (control.busy busy).1 with phase | phase
    · exact reduce phase
    · exact mul phase
  have redmod : s.redmodInput i = s.redmodInput j := by
    simp only [State.redmodInput, written.1, idle.1]
  have mulmod : s.mulmodInput i = s.mulmodInput j := by
    simp only [State.mulmodInput, written.1, idle.1]
  rw [edge_resting written.1 reduce mul, edge_resting idle.1 reduce mul,
    command_refused unloaded written, command_quiet idle.2, redmod, mulmod]
  simp [State.obey, State.forget, quiet, unloaded.opUnarmed, unloaded.modUnarmed]

theorem edge_refused (written : i.startWrite) : s.edge i =
    { s.obey .refuse with
      uRedmod := s.uRedmod.edge (s.redmodInput i)
      uMulmod := s.uMulmod.edge (s.mulmodInput i) } := by
  rw [edge_resting written.1 (by simp [unloaded.cstate]) (by simp [unloaded.cstate]),
    command_refused unloaded written]

theorem edge_idle (idle : i.idle) : s.edge i =
    { s.obey .quiet with
      uRedmod := s.uRedmod.edge (s.redmodInput i)
      uMulmod := s.uMulmod.edge (s.mulmodInput i) } := by
  rw [edge_resting idle.1 (by simp [unloaded.cstate]) (by simp [unloaded.cstate]),
    command_quiet idle.2]

end Refused

/-- The situation of `s` lasts, with its registers. -/
structure Lasts (s t : State) : Prop where
  before : Unloaded s
  after : Unloaded t
  operand : t.operand = s.operand
  aReduced : t.aReduced = s.aReduced
  result : t.result = s.result

theorem Lasts.edge (lasts : Lasts s t) (cycle : i.startWrite ∨ i.idle) : Lasts s (t.edge i) := by
  obtain ⟨before, after, operand, aReduced, result⟩ := lasts
  rcases cycle with written | idle
  · rw [edge_refused after written]
    exact ⟨before, ⟨after.cstate, after.modulus, rfl, rfl⟩, operand, aReduced, result⟩
  · rw [edge_idle after idle]
    exact ⟨before, ⟨after.cstate, after.modulus, after.opUnarmed, after.modUnarmed⟩, operand,
      aReduced, result⟩

theorem Lasts.edge_refused (lasts : Lasts s t) (written : i.startWrite) :
    RefusedStart s (t.edge i) := by
  obtain ⟨before, after, operand, aReduced, result⟩ := lasts
  rw [Accel.edge_refused after written]
  exact ⟨(status_failed_iff _).mpr ⟨rfl, rfl, rfl⟩, after.cstate.trans before.cstate.symm,
    operand, after.modulus.trans before.modulus.symm, aReduced, result, rfl, rfl⟩

theorem RefusedStart.edge_idle (refused : RefusedStart s t) (after : Unloaded t) (idle : i.idle) :
    RefusedStart s (t.edge i) := by
  obtain ⟨status, cstate, operand, modulus, aReduced, result, -, -⟩ := refused
  rw [Accel.edge_idle after idle]
  exact ⟨status, cstate, operand, modulus, aReduced, result, rfl, rfl⟩

theorem refused_trace (unloaded : Unloaded s) (ins : ℕ → Pins) (n : ℕ)
    (cycles : ∀ k < n, (ins k).startWrite ∨ (ins k).idle) : Lasts s (machine.trace s ins n) ∧
      ((∃ k < n, (ins k).startWrite) → RefusedStart s (machine.trace s ins n)) := by
  induction n with
  | zero => exact ⟨⟨unloaded, unloaded, rfl, rfl, rfl⟩, fun ⟨_, before, _⟩ => by omega⟩
  | succ n ih =>
      obtain ⟨lasts, refused⟩ := ih fun k before => cycles k (by omega)
      refine ⟨lasts.edge (cycles n (Nat.lt_succ_self n)), fun ⟨k, before, written⟩ => ?_⟩
      rcases cycles n (Nat.lt_succ_self n) with now | idle
      · exact lasts.edge_refused now
      · have earlier : k < n := by
          apply Nat.lt_of_le_of_ne (Nat.le_of_lt_succ before)
          intro same
          have wen : (ins n).wen = true := same ▸ written.2.1.1
          rw [idle.2] at wen
          cases wen
        exact (refused ⟨k, earlier, written⟩).edge_idle lasts.after idle

/-- The second run idles in cycles in which the first one has a START refused. -/
def Spares (s : State) (ins ins' : ℕ → Pins) (n : ℕ) : Prop :=
  ins' n = ins n ∨ Unloaded (machine.trace s ins n) ∧ (ins n).startWrite ∧ (ins' n).idle

theorem spares_trace (control : Control s) {ins ins' : ℕ → Pins} (n : ℕ)
    (spares : ∀ k < n, Spares s ins ins' k) :
    (machine.trace s ins n).forget = (machine.trace s ins' n).forget := by
  induction n with
  | zero => rfl
  | succ n ih =>
      have before := ih fun k earlier => spares k (by omega)
      have follow : ((machine.trace s ins n).edge (ins' n)).forget =
          ((machine.trace s ins' n).edge (ins' n)).forget := by
        rw [forget_edge, before, ← forget_edge]
      rw [Machine.trace_succ, Machine.trace_succ]
      change (State.edge _ _).forget = (State.edge _ _).forget
      rw [← follow]
      rcases spares n (Nat.lt_succ_self n) with same | ⟨unloaded, written, idle⟩
      · rw [same]
      · exact refused_edge unloaded (control.trace ins n) written idle

/-- Once the outcome is settled the two runs are the same. -/
theorem spares_settled (control : Control s) {ins ins' : ℕ → Pins} {t : ℕ}
    (spares : ∀ k < t, Spares s ins ins' k) (settles : (machine.trace s ins t).settles (ins t))
    (same : ∀ k, t ≤ k → ins' k = ins k) (n : ℕ) (later : t < n) :
    machine.trace s ins n = machine.trace s ins' n := by
  induction n, later using Nat.le_induction with
  | base =>
      have before := spares_trace control t spares
      have settles' : (machine.trace s ins' t).settles (ins t) := by
        rcases settles with held | written | ⟨written, idle, nonzero⟩
        · exact Or.inl held
        · exact Or.inr (Or.inl written)
        · exact Or.inr (Or.inr ⟨written, (congrArg State.cstate before).symm.trans idle,
            fun zero => nonzero ((congrArg State.modulus before).trans zero)⟩)
      change State.edge _ (ins t) = State.edge _ (ins' t)
      rw [same t (Nat.le_refl t), settles_edge settles, settles_edge settles', before]
  | succ n later ih =>
      change State.edge _ (ins n) = State.edge _ (ins' n)
      rw [ih, same n (by omega)]

/-- Any number of refused STARTs, in any spacing, changes nothing but STATUS, and
that only up to the next START that is taken or the next reset. -/
theorem refused_start_traceless (reached : machine.Reachable s) :
    (Unloaded s → ∀ ins n, (∀ k < n, (ins k).startWrite ∨ (ins k).idle) →
      (∃ k < n, (ins k).startWrite) → RefusedStart s (machine.trace s ins n)) ∧
    ∀ ins ins' t, (∀ k < t, Spares s ins ins' k) → (machine.trace s ins t).settles (ins t) →
      (∀ k, t ≤ k → ins' k = ins k) → ∀ n, t < n → ∀ addr,
        ((machine.trace s ins n).settle (ins n)).rdata addr =
          ((machine.trace s ins' n).settle (ins' n)).rdata addr := by
  have control := Control.of_reachable reached
  constructor
  · intro unloaded ins n cycles some
    exact (refused_trace unloaded ins n cycles).2 some
  · intro ins ins' t spares settles same n later addr
    rw [spares_settled control spares settles same n later, same n (Nat.le_of_lt later)]

/-- Operand 10, and a START over the modulus 0. -/
def refusedStart : ℕ → Pins := script [busWrite addrCtrl 4, busWrite addrOperand 10,
  busWrite addrCtrl 1, busWrite addrCtrl 8, busWrite addrModulus 7, busWrite addrCtrl 1]

/-- The same without the refused START. -/
def spared : ℕ → Pins := script [busWrite addrCtrl 4, busWrite addrOperand 10, busIdle,
  busWrite addrCtrl 8, busWrite addrModulus 7, busWrite addrCtrl 1]

/-- 10 squared modulo 7, with the operand loaded before the error. -/
theorem refused_start_ten :
    ((machine.trace .reset refusedStart 74).settle (refusedStart 74)).rdata addrResult = 2 := by
  have spares : ∀ k < 5, Spares .reset refusedStart spared k := by
    intro k before
    by_cases other : k = 2
    · subst other
      exact Or.inr ⟨⟨by decide, by decide, by decide, by decide⟩, by decide, by decide, by decide⟩
    · left
      revert k
      decide
  have same : ∀ k, 5 ≤ k → spared k = refusedStart k := by
    intro k later
    obtain ⟨k, rfl⟩ := Nat.exists_eq_add_of_le' later
    rfl
  have equal := (refused_start_traceless .reset).2 refusedStart spared 5 spares (by decide) same 74
    (by decide) addrResult
  exact equal.trans (by decide +kernel)

end BlindSig.Accel
